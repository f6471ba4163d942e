import BeginCode.Program

/-!
# Without lines

Forgetting the line numbers of tokens, trees and reports. A tree without its lines is evaluated and
executed like the tree itself, with the same world at the end, except that an error has no line.
-/

namespace BeginCode

def Token.unlined (token : Token) : Token := { token with line := 0 }

def Located.unlined {Cause : Type} (error : Located Cause) : Located Cause :=
  { error with line := 0 }

def Report.Entry.unlined : Report.Entry → Report.Entry
  | lexical error => lexical error.unlined
  | grammatical error => grammatical error.unlined
  | runtime error => runtime error.unlined

def Report.unlined (report : Report) : Report := ⟨report.entries.map Report.Entry.unlined⟩

def Expr.unlined : Expr → Expr
  | literal value _ => literal value 0
  | grouping inner _ => grouping inner.unlined 0
  | unary op operand _ => unary op operand.unlined 0
  | binary op left right _ => binary op left.unlined right.unlined 0
  | logical op left right _ => logical op left.unlined right.unlined 0
  | .variable name => .variable name.unlined
  | assign name value => assign name.unlined value.unlined

mutual

def Stmt.unlined : Stmt → Stmt
  | .block body _ => .block (Stmt.unlinedAll body) 0
  | .expression expr _ => .expression expr.unlined 0
  | .conditional condition thenBranch elseBranch _ =>
      .conditional condition.unlined thenBranch.unlined (Stmt.unlinedElse elseBranch) 0
  | .loop condition body _ => .loop condition.unlined body.unlined 0
  | .display value _ => .display value.unlined 0
  | .scan targets _ => .scan (targets.map Token.unlined) 0
  | .declare type name initializer =>
      .declare type name.unlined (initializer.map Expr.unlined)
  | .assignAll names values _ =>
      .assignAll (names.map Token.unlined) (values.map (Option.map Expr.unlined)) 0

def Stmt.unlinedElse : Option Stmt → Option Stmt
  | none => none
  | some branch => some branch.unlined

def Stmt.unlinedAll : List Stmt → List Stmt
  | [] => []
  | first :: rest => first.unlined :: Stmt.unlinedAll rest

end

def Stop.unlined : Stop → Stop
  | fault error => fault error.unlined
  | outOfRounds => outOfRounds

def Program.Run.unlined (run : Program.Run) : Program.Run :=
  { run with report := run.report.unlined }

theorem Stmt.unlinedAll_eq (statements : List Stmt) :
    Stmt.unlinedAll statements = statements.map Stmt.unlined := by
  induction statements with
  | nil => rfl
  | cons first rest ih => rw [Stmt.unlinedAll, ih, List.map_cons]

@[simp]
theorem Expr.line_unlined (expr : Expr) : expr.unlined.line = 0 := by
  cases expr <;> rfl

/-! ### Computations with changed errors -/

section AdaptExcept

variable {ε δ σ α β : Type} (change : ε → δ)

theorem adaptExcept_pure (result : α) :
    (pure result : EStateM ε σ α).adaptExcept change = pure result := rfl

theorem run_adaptExcept (first : EStateM ε σ α) (state : σ) :
    (first.adaptExcept change).run state =
      match first.run state with
      | .ok result later => .ok result later
      | .error error later => .error (change error) later := by
  change first.adaptExcept change state = match first state with
    | .ok result later => .ok result later
    | .error error later => .error (change error) later
  unfold EStateM.adaptExcept
  cases first state <;> rfl

theorem eq_adaptExcept {change : ε → δ} {first : EStateM ε σ α} {other : EStateM δ σ α}
    (hruns : ∀ state, other.run state =
      match first.run state with
      | .ok result later => .ok result later
      | .error error later => .error (change error) later) :
    other = first.adaptExcept change := by
  funext state
  exact (hruns state).trans (run_adaptExcept change first state).symm

theorem adaptExcept_bind (first : EStateM ε σ α) (next : α → EStateM ε σ β) :
    (first >>= next).adaptExcept change =
      first.adaptExcept change >>= fun result => (next result).adaptExcept change := by
  refine (eq_adaptExcept fun state => ?_).symm
  rw [EStateM.run_bind, EStateM.run_bind, run_adaptExcept]
  cases first.run state with
  | ok result later => exact run_adaptExcept change (next result) later
  | error error later => rfl

theorem adaptExcept_ite (condition : Prop) [Decidable condition] (first second : EStateM ε σ α) :
    (if condition then first else second).adaptExcept change =
      if condition then first.adaptExcept change else second.adaptExcept change :=
  apply_ite (·.adaptExcept change) condition first second

end AdaptExcept

/-! ### Evaluating -/

namespace Eval

theorem lookup_unlined (name : Token) :
    lookup name.unlined = (lookup name).adaptExcept Located.unlined := by
  refine eq_adaptExcept fun environment => ?_
  have hlexeme : name.unlined.lexeme = name.lexeme := rfl
  rw [run_lookup, run_lookup, Environment.lookup, Environment.lookup, hlexeme]
  cases environment.find? name.lexeme <;> rfl

theorem assign_unlined (name : Token) (value : Value) :
    assign name.unlined value = (assign name value).adaptExcept Located.unlined := by
  refine eq_adaptExcept fun environment => ?_
  have hlexeme : name.unlined.lexeme = name.lexeme := rfl
  rw [run_assign, run_assign]
  cases hfind : environment.find? name.lexeme with
  | none =>
      have hunlined := hfind
      rw [← hlexeme] at hunlined
      rw [Environment.assign_of_none hfind, Environment.assign_of_none hunlined]
      rfl
  | some binding =>
      have hunlined := hfind
      rw [← hlexeme] at hunlined
      rw [Environment.assign_of_some hfind, Environment.assign_of_some hunlined]
      by_cases hadmits : binding.type.admits value = true
      · rw [if_pos hadmits, if_pos hadmits]
        rfl
      · rw [if_neg hadmits, if_neg hadmits]
        rfl

theorem ofResult_unlined (result : Except RuntimeCause Value) (line : Nat) :
    ofResult result 0 = (ofResult result line).adaptExcept Located.unlined := by
  cases result <;> rfl

end Eval

theorem Expr.eval_unlined (expr : Expr) :
    expr.unlined.eval = expr.eval.adaptExcept Located.unlined := by
  induction expr with
  | literal value _ => rfl
  | grouping inner _ ih => exact ih
  | unary op operand line ih =>
      simp only [unlined, eval, adaptExcept_bind, ih, Eval.ofResult_unlined _ line]
  | binary op left right line ihLeft ihRight =>
      simp only [unlined, eval, adaptExcept_bind, ihLeft, ihRight, Eval.ofResult_unlined _ line]
  | logical op left right _ ihLeft ihRight =>
      simp only [unlined, eval, adaptExcept_bind, adaptExcept_ite, adaptExcept_pure, ihLeft,
        ihRight]
  | «variable» name =>
      simp only [unlined, eval, adaptExcept_bind, adaptExcept_pure, Eval.lookup_unlined]
  | assign name value ih =>
      simp only [unlined, eval, adaptExcept_bind, adaptExcept_pure, Eval.assign_unlined, ih]

/-! ### Executing -/

namespace Exec

variable {α : Type}

theorem ofEval_adaptExcept (eval : Eval α) :
    ofEval (eval.adaptExcept Located.unlined) = (ofEval eval).adaptExcept Stop.unlined := by
  refine eq_adaptExcept fun world => ?_
  rw [run_ofEval, run_ofEval, run_adaptExcept]
  cases eval.run world.environment <;> rfl

theorem inScope_adaptExcept (body : Exec α) :
    inScope (body.adaptExcept Stop.unlined) = (inScope body).adaptExcept Stop.unlined := by
  refine eq_adaptExcept fun world => ?_
  rw [run_inScope, run_inScope, run_adaptExcept]
  cases body.run { world with environment := world.environment.push } <;> rfl

theorem eval_unlined (expr : Expr) :
    ofEval expr.unlined.eval = (ofEval expr.eval).adaptExcept Stop.unlined := by
  rw [Expr.eval_unlined, ofEval_adaptExcept]

theorem lookup_unlined (name : Token) :
    ofEval (Eval.lookup name.unlined) =
      (ofEval (Eval.lookup name)).adaptExcept Stop.unlined := by
  rw [Eval.lookup_unlined, ofEval_adaptExcept]

theorem assign_unlined (name : Token) (value : Value) :
    ofEval (Eval.assign name.unlined value) =
      (ofEval (Eval.assign name value)).adaptExcept Stop.unlined := by
  rw [Eval.assign_unlined, ofEval_adaptExcept]

theorem fault_unlined (cause : RuntimeCause) (line : Nat) :
    (fault cause 0 : Exec α) = (fault cause line).adaptExcept Stop.unlined := rfl

theorem takeLine_unlined : takeLine = takeLine.adaptExcept Stop.unlined := rfl

theorem display_unlined (value : Value) (line : Nat) :
    display value 0 = (display value line).adaptExcept Stop.unlined := by
  refine eq_adaptExcept fun world => ?_
  rw [run_display, run_display]
  cases world.console.write (Console.utf8 (value.display ++ "\n")) with
  | mk complete console => cases complete <;> rfl

theorem assignFields_unlined (line : Nat) (pairs : List (Token × List Char)) :
    assignFields 0 (pairs.map fun pair => (pair.1.unlined, pair.2)) =
      (assignFields line pairs).adaptExcept Stop.unlined := by
  induction pairs with
  | nil => rfl
  | cons pair rest ih =>
      obtain ⟨target, field⟩ := pair
      simp only [List.map_cons, assignFields, assignField, adaptExcept_bind, adaptExcept_ite, ih,
        lookup_unlined, assign_unlined, ← fault_unlined]
      rfl

theorem scan_unlined (targets : List Token) (line : Nat) :
    scan (targets.map Token.unlined) 0 = (scan targets line).adaptExcept Stop.unlined := by
  rw [scan, scan, adaptExcept_bind, ← takeLine_unlined]
  congr 1
  funext bytes
  cases Console.decode? bytes with
  | none => rfl
  | some text =>
      dsimp only
      rw [adaptExcept_ite, List.length_map, ← fault_unlined _ line, ← assignFields_unlined,
        List.zip_map_left]
      rfl

theorem declare_unlined (type : ValueType) (name : Token) (initializer : Option Expr) :
    declare type name.unlined (initializer.map Expr.unlined) =
      (declare type name initializer).adaptExcept Stop.unlined := by
  cases initializer with
  | none => rfl
  | some value =>
      simp only [Option.map_some, declare, adaptExcept_bind, adaptExcept_ite, eval_unlined]
      rfl

theorem assignAll_unlined (pairs : List (Token × Option Expr)) :
    assignAll (pairs.map fun pair => (pair.1.unlined, pair.2.map Expr.unlined)) =
      (assignAll pairs).adaptExcept Stop.unlined := by
  induction pairs with
  | nil => rfl
  | cons pair rest ih =>
      obtain ⟨name, initializer⟩ := pair
      cases initializer with
      | none =>
          simp only [List.map_cons, assignAll, Option.map_none, adaptExcept_bind, adaptExcept_pure,
            assign_unlined, ih]
      | some expr =>
          simp only [List.map_cons, assignAll, Option.map_some, adaptExcept_bind, assign_unlined,
            eval_unlined, ih]

theorem repeatWhile_unlined (condition : Expr) (body : Exec Unit) (bound : Nat) :
    repeatWhile condition.unlined (body.adaptExcept Stop.unlined) bound =
      (repeatWhile condition body bound).adaptExcept Stop.unlined := by
  induction bound with
  | zero => rfl
  | succ bound ih =>
      simp only [repeatWhile, adaptExcept_bind, adaptExcept_ite, adaptExcept_pure, eval_unlined, ih]

end Exec

mutual

theorem Stmt.exec_unlined (bound : Nat) : (statement : Stmt) →
    statement.unlined.exec bound = (statement.exec bound).adaptExcept Stop.unlined
  | .block body _ => by
      rw [Stmt.unlined, Stmt.exec, Stmt.exec, Stmt.execAll_unlinedAll bound body,
        Exec.inScope_adaptExcept]
  | .expression expr _ => by
      simp only [Stmt.unlined, Stmt.exec, adaptExcept_bind, adaptExcept_pure, Exec.eval_unlined]
  | .conditional condition thenBranch elseBranch _ => by
      simp only [Stmt.unlined, Stmt.exec, adaptExcept_bind, adaptExcept_ite, Exec.eval_unlined,
        Stmt.exec_unlined bound thenBranch, Stmt.execElse_unlinedElse bound elseBranch]
  | .loop condition body _ => by
      rw [Stmt.unlined, Stmt.exec, Stmt.exec, Stmt.exec_unlined bound body,
        Exec.repeatWhile_unlined]
  | .display value line => by
      simp only [Stmt.unlined, Stmt.exec, adaptExcept_bind, Exec.eval_unlined,
        Exec.display_unlined _ line]
  | .scan targets line => by
      rw [Stmt.unlined, Stmt.exec, Stmt.exec, Exec.scan_unlined targets line]
  | .declare type name initializer => Exec.declare_unlined type name initializer
  | .assignAll names values _ => by
      rw [Stmt.unlined, Stmt.exec, Stmt.exec, ← Exec.assignAll_unlined, List.zip_map]
      rfl

theorem Stmt.execElse_unlinedElse (bound : Nat) : (branch : Option Stmt) →
    Stmt.execElse bound (Stmt.unlinedElse branch) =
      (Stmt.execElse bound branch).adaptExcept Stop.unlined
  | none => rfl
  | some branch => Stmt.exec_unlined bound branch

theorem Stmt.execAll_unlinedAll (bound : Nat) : (statements : List Stmt) →
    Stmt.execAll bound (Stmt.unlinedAll statements) =
      (Stmt.execAll bound statements).adaptExcept Stop.unlined
  | [] => rfl
  | first :: rest => by
      rw [Stmt.unlinedAll, Stmt.execAll, Stmt.execAll, adaptExcept_bind,
        Stmt.exec_unlined bound first, Stmt.execAll_unlinedAll bound rest]

end

/-- Without its lines a program runs as before, up to the line of a reported error. -/
theorem Program.execute_unlined (bound : Nat) (statements : List Stmt) (console : Console) :
    execute bound (statements.map Stmt.unlined) console =
      (execute bound statements console).map Run.unlined := by
  unfold execute
  rw [← Stmt.unlinedAll_eq, Stmt.execAll_unlinedAll, run_adaptExcept]
  cases (Stmt.execAll bound statements).run { console } with
  | ok result world => rfl
  | error stop world => cases stop <;> rfl

end BeginCode
