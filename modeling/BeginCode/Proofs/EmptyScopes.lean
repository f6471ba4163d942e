import BeginCode.Proofs.Lockstep
import BeginCode.Proofs.Phrase

/-!
# Empty scopes hide nothing

Names are found and assigned through an empty scope as if it were not there, and a phrase declares
nothing in the scope in which it is executed. So a phrase does the same with an empty scope anywhere
in the chain, and running phrases in a scope of their own changes nothing.
-/

namespace BeginCode

/-- The second chain has one more scope, an empty one, with `depth` scopes further in. -/
inductive Scope.Widens : Nat → List Scope → List Scope → Prop where
  | here {outer : List Scope} : Widens 0 outer (.empty :: outer)
  | under {depth : Nat} {scope : Scope} {narrow wide : List Scope}
      (hwidens : Widens depth narrow wide) : Widens (depth + 1) (scope :: narrow) (scope :: wide)

def Environment.Widens (depth : Nat) (narrow wide : Environment) : Prop :=
  Scope.Widens depth narrow.scopes wide.scopes

namespace Environment

variable {depth : Nat} {narrow wide : Environment}

theorem widens_push (environment : Environment) : environment.Widens 0 environment.push := .here

theorem Widens.eq_push (hwidens : narrow.Widens 0 wide) : wide = narrow.push := by
  obtain ⟨scopes⟩ := wide
  cases hwidens with
  | here => rfl

theorem Widens.push (hwidens : narrow.Widens depth wide) :
    narrow.push.Widens (depth + 1) wide.push := .under hwidens

theorem Widens.pop (hwidens : narrow.Widens (depth + 1) wide) :
    narrow.pop.Widens depth wide.pop := by
  obtain ⟨scopes⟩ := narrow
  obtain ⟨others⟩ := wide
  cases hwidens with
  | under hwidens => exact hwidens

/-- A declaration goes to the innermost scope, which has to be another one than the empty scope. -/
theorem Widens.define (hwidens : narrow.Widens (depth + 1) wide) (name : String)
    (binding : Binding) :
    (narrow.define name binding).Widens (depth + 1) (wide.define name binding) := by
  obtain ⟨scopes⟩ := narrow
  obtain ⟨others⟩ := wide
  cases hwidens with
  | under hwidens => exact .under hwidens

theorem Widens.find?_eq (hwidens : narrow.Widens depth wide) (name : String) :
    wide.find? name = narrow.find? name := by
  have hscopes : ∀ {depth : Nat} {scopes others : List Scope}, Scope.Widens depth scopes others →
      others.findSome? (·.get? name) = scopes.findSome? (·.get? name) := by
    intro depth scopes others hwidens
    induction hwidens with
    | here => rfl
    | under _ ih => rw [List.findSome?_cons, List.findSome?_cons, ih]
  exact hscopes hwidens

theorem Widens.store (hwidens : narrow.Widens depth wide) (name : String) (value : Value) :
    (narrow.store name value).Widens depth (wide.store name value) := by
  have hscopes : ∀ {depth : Nat} {scopes others : List Scope}, Scope.Widens depth scopes others →
      Scope.Widens depth (storeIn name value scopes) (storeIn name value others) := by
    intro depth scopes others hwidens
    induction hwidens with
    | here => exact .here
    | @under _ scope _ _ hwidens ih =>
        rw [storeIn, storeIn]
        cases scope.get? name with
        | none => exact .under ih
        | some binding => exact .under hwidens
  exact hscopes hwidens

theorem Widens.lookup_eq (hwidens : narrow.Widens depth wide) (name : Token) :
    wide.lookup name = narrow.lookup name := by
  rw [lookup, lookup, hwidens.find?_eq]

end Environment

/-! ### Expressions -/

/-- An evaluation that does not notice an empty scope with `depth` scopes further in. -/
def Eval.IgnoresScope {α : Type} (depth : Nat) (eval : Eval α) : Prop :=
  InStep (Environment.Widens depth) (Environment.Widens depth) Eq Eq eval eval

namespace Eval

variable {α β : Type} {depth : Nat}

theorem ignoresScope_bind {first : Eval α} {next : α → Eval β} (hfirst : first.IgnoresScope depth)
    (hnext : ∀ result, (next result).IgnoresScope depth) :
    (first >>= next).IgnoresScope depth :=
  inStep_bind hfirst fun result _ heq => heq ▸ hnext result

theorem ignoresScope_pure (result : α) : (pure result : Eval α).IgnoresScope depth :=
  inStep_pure rfl

theorem ignoresScope_lookup (name : Token) : (lookup name).IgnoresScope depth := by
  intro narrow wide hwidens
  rw [run_lookup, run_lookup, hwidens.lookup_eq]
  cases narrow.lookup name with
  | ok binding => exact .ok rfl hwidens
  | error error => exact .error rfl hwidens

theorem ignoresScope_assign (name : Token) (value : Value) :
    (assign name value).IgnoresScope depth := by
  intro narrow wide hwidens
  rw [run_assign, run_assign]
  have hfound := hwidens.find?_eq name.lexeme
  cases hfind : narrow.find? name.lexeme with
  | none =>
      rw [hfind] at hfound
      rw [Environment.assign_of_none hfind, Environment.assign_of_none hfound]
      exact .error rfl hwidens
  | some binding =>
      rw [hfind] at hfound
      rw [Environment.assign_of_some hfind, Environment.assign_of_some hfound]
      by_cases hadmits : binding.type.admits value = true
      · rw [if_pos hadmits, if_pos hadmits]
        exact .ok rfl (hwidens.store name.lexeme value)
      · rw [if_neg hadmits, if_neg hadmits]
        exact .error rfl hwidens

theorem ignoresScope_ofResult (result : Except RuntimeCause Value) (line : Nat) :
    (ofResult result line).IgnoresScope depth := by
  cases result with
  | ok value => exact inStep_pure rfl
  | error cause => exact inStep_throw rfl

end Eval

theorem Expr.ignoresScope_eval (depth : Nat) (expr : Expr) : expr.eval.IgnoresScope depth := by
  induction expr with
  | literal value _ => exact Eval.ignoresScope_pure value
  | grouping inner _ ih => exact ih
  | unary op operand line ih =>
      exact Eval.ignoresScope_bind ih fun _ => Eval.ignoresScope_ofResult _ line
  | binary op left right line ihLeft ihRight =>
      exact Eval.ignoresScope_bind ihLeft fun _ => Eval.ignoresScope_bind ihRight fun _ =>
        Eval.ignoresScope_ofResult _ line
  | logical op left right _ ihLeft ihRight =>
      exact Eval.ignoresScope_bind ihLeft fun value =>
        inStep_ite .rfl (fun _ => Eval.ignoresScope_pure value) fun _ => ihRight
  | «variable» name =>
      exact Eval.ignoresScope_bind (Eval.ignoresScope_lookup name) fun _ =>
        Eval.ignoresScope_pure _
  | assign name value ih =>
      exact Eval.ignoresScope_bind ih fun newValue =>
        Eval.ignoresScope_bind (Eval.ignoresScope_assign name newValue) fun _ =>
          Eval.ignoresScope_pure newValue

/-! ### Statements -/

def World.Widens (depth : Nat) (narrow wide : World) : Prop :=
  narrow.environment.Widens depth wide.environment ∧ narrow.console = wide.console

/-- A computation that does not notice an empty scope with `depth` scopes further in. -/
def Exec.IgnoresScope {α : Type} (depth : Nat) (exec : Exec α) : Prop :=
  InStep (World.Widens depth) (World.Widens depth) Eq Eq exec exec

namespace Exec

variable {α β : Type} {depth : Nat}

theorem ignoresScope_bind {first : Exec α} {next : α → Exec β} (hfirst : first.IgnoresScope depth)
    (hnext : ∀ result, (next result).IgnoresScope depth) :
    (first >>= next).IgnoresScope depth :=
  inStep_bind hfirst fun result _ heq => heq ▸ hnext result

theorem ignoresScope_pure (result : α) : (pure result : Exec α).IgnoresScope depth :=
  inStep_pure rfl

theorem ignoresScope_fault (cause : RuntimeCause) (line : Nat) :
    (fault cause line : Exec α).IgnoresScope depth :=
  inStep_throw rfl

theorem ignoresScope_ofEval {eval : Eval α} (heval : eval.IgnoresScope depth) :
    (ofEval eval).IgnoresScope depth := by
  rintro ⟨narrow, console⟩ ⟨wide, _⟩ ⟨hwidens, rfl⟩
  rw [run_ofEval, run_ofEval]
  have halike := heval narrow wide hwidens
  generalize eval.run narrow = outcome at halike ⊢
  generalize eval.run wide = found at halike ⊢
  cases halike with
  | ok hresults hstates => exact .ok hresults ⟨hstates, rfl⟩
  | error herrors hstates => exact .error (congrArg Stop.fault herrors) ⟨hstates, rfl⟩

theorem ignoresScope_eval (expr : Expr) : (ofEval expr.eval).IgnoresScope depth :=
  ignoresScope_ofEval (expr.ignoresScope_eval depth)

theorem ignoresScope_inScope {body : Exec α} (hbody : body.IgnoresScope (depth + 1)) :
    (inScope body).IgnoresScope depth := by
  rintro ⟨narrow, console⟩ ⟨wide, _⟩ ⟨hwidens, rfl⟩
  rw [run_inScope, run_inScope]
  have halike := hbody ⟨narrow.push, console⟩ ⟨wide.push, console⟩ ⟨hwidens.push, rfl⟩
  dsimp only at halike ⊢
  generalize body.run ⟨narrow.push, console⟩ = outcome at halike ⊢
  generalize body.run ⟨wide.push, console⟩ = found at halike ⊢
  cases halike with
  | ok hresults hstates => exact .ok hresults ⟨hstates.1.pop, hstates.2⟩
  | error herrors hstates => exact .error herrors ⟨hstates.1.pop, hstates.2⟩

theorem ignoresScope_define (name : String) (binding : Binding) :
    (define name binding).IgnoresScope (depth + 1) := by
  rintro ⟨narrow, console⟩ ⟨wide, _⟩ ⟨hwidens, rfl⟩
  exact .ok rfl ⟨hwidens.define name binding, rfl⟩

theorem ignoresScope_display (value : Value) (line : Nat) :
    (display value line).IgnoresScope depth := by
  rintro ⟨narrow, console⟩ ⟨wide, _⟩ ⟨hwidens, rfl⟩
  rw [run_display, run_display]
  cases console.write (Console.utf8 (value.display ++ "\n")) with
  | mk complete console =>
      cases complete with
      | true => exact .ok rfl ⟨hwidens, rfl⟩
      | false => exact .error rfl ⟨hwidens, rfl⟩

theorem ignoresScope_takeLine : takeLine.IgnoresScope depth := by
  rintro ⟨narrow, console⟩ ⟨wide, _⟩ ⟨hwidens, rfl⟩
  exact .ok rfl ⟨hwidens, rfl⟩

theorem ignoresScope_assignFields (line : Nat) (pairs : List (Token × List Char)) :
    (assignFields line pairs).IgnoresScope depth := by
  induction pairs with
  | nil => exact ignoresScope_pure ()
  | cons pair rest ih =>
      refine ignoresScope_bind ?_ fun _ => ih
      exact ignoresScope_bind (ignoresScope_ofEval (Eval.ignoresScope_lookup pair.1)) fun _ =>
        inStep_ite .rfl (fun _ => ignoresScope_ofEval (Eval.ignoresScope_assign pair.1 _)) fun _ =>
          ignoresScope_fault _ line

theorem ignoresScope_scan (targets : List Token) (line : Nat) :
    (scan targets line).IgnoresScope depth := by
  refine ignoresScope_bind ignoresScope_takeLine fun bytes => ?_
  cases Console.decode? bytes with
  | none => exact ignoresScope_fault _ line
  | some text =>
      exact inStep_ite .rfl (fun _ => ignoresScope_assignFields line _) fun _ =>
        ignoresScope_fault _ line

theorem ignoresScope_declare (type : ValueType) (name : Token) (initializer : Option Expr) :
    (declare type name initializer).IgnoresScope (depth + 1) := by
  cases initializer with
  | none => exact ignoresScope_define _ _
  | some value =>
      exact ignoresScope_bind (ignoresScope_eval value) fun _ =>
        inStep_ite .rfl (fun _ => ignoresScope_define _ _) fun _ => ignoresScope_fault _ name.line

theorem ignoresScope_repeatWhile (condition : Expr) {body : Exec Unit}
    (hbody : body.IgnoresScope depth) (bound : Nat) :
    (repeatWhile condition body bound).IgnoresScope depth := by
  induction bound with
  | zero => exact inStep_throw rfl
  | succ bound ih =>
      exact ignoresScope_bind (ignoresScope_eval condition) fun _ =>
        inStep_ite .rfl (fun _ => ignoresScope_bind hbody fun _ => ih) fun _ => ignoresScope_pure ()

/-- What does not notice an empty scope needs no scope of its own. -/
theorem IgnoresScope.inScope_eq {body : Exec α} (hbody : body.IgnoresScope 0) :
    inScope body = body := by
  funext ⟨environment, console⟩
  change (inScope body).run _ = body.run _
  rw [run_inScope]
  have halike := hbody ⟨environment, console⟩ ⟨environment.push, console⟩
    ⟨environment.widens_push, rfl⟩
  have hpopped : ∀ {narrow wide : World}, narrow.Widens 0 wide →
      { wide with environment := wide.environment.pop } = narrow := by
    rintro ⟨narrow, console⟩ ⟨wide, _⟩ ⟨hwidens, rfl⟩
    rw [hwidens.eq_push, Environment.pop_push]
  dsimp only
  generalize body.run ⟨environment, console⟩ = outcome at halike ⊢
  generalize body.run ⟨environment.push, console⟩ = found at halike ⊢
  cases halike with
  | ok hresults hstates => rw [hresults, ← hpopped hstates]
  | error herrors hstates => rw [herrors, ← hpopped hstates]

end Exec

/-! ### Phrases -/

theorem Stmt.execAll_append (bound : Nat) (first second : List Stmt) :
    Stmt.execAll bound (first ++ second) =
      Stmt.execAll bound first >>= fun _ => Stmt.execAll bound second := by
  induction first with
  | nil => rw [List.nil_append, Stmt.execAll, pure_bind]
  | cons statement rest ih => rw [List.cons_append, Stmt.execAll, Stmt.execAll, ih, bind_assoc]

theorem Stmt.ignoresScope_ofExpr (bound depth : Nat) (expr : Expr) :
    ((Stmt.ofExpr expr).exec bound).IgnoresScope depth :=
  Exec.ignoresScope_bind (Exec.ignoresScope_eval expr) fun _ => Exec.ignoresScope_pure ()

theorem Stmt.ignoresScope_execAll_ofExpr (bound depth : Nat) (increment : Option Expr) :
    (Stmt.execAll bound (increment.toList.map .ofExpr)).IgnoresScope depth := by
  cases increment with
  | none => exact Exec.ignoresScope_pure ()
  | some expr =>
      exact Exec.ignoresScope_bind (Stmt.ignoresScope_ofExpr bound depth expr) fun _ =>
        Exec.ignoresScope_pure ()

theorem Initializer.ignoresScope_exec (bound depth : Nat) (initializer : Initializer) :
    (initializer.lower.exec bound).IgnoresScope (depth + 1) := by
  cases initializer with
  | declared type declarator => exact Exec.ignoresScope_declare _ _ _
  | expression expr => exact Stmt.ignoresScope_ofExpr bound (depth + 1) expr

mutual

/-- A phrase does not notice an empty scope, not even one in which it begins itself. -/
theorem Phrase.ignoresScope_exec (bound : Nat) : (phrase : Phrase) → (depth : Nat) →
    (phrase.lower.exec bound).IgnoresScope depth
  | .display value line, _ =>
      Exec.ignoresScope_bind (Exec.ignoresScope_eval value) fun _ =>
        Exec.ignoresScope_display _ line
  | .scan first others line, _ => Exec.ignoresScope_scan (first :: others) line
  | .expression expr, depth => Stmt.ignoresScope_ofExpr bound depth expr
  | .conditional branch, depth => branch.ignoresScope_exec bound depth
  | .loop condition (.mk phrases _) _, depth =>
      Exec.ignoresScope_repeatWhile condition
        (Exec.ignoresScope_inScope (Phrase.ignoresScope_execAll bound phrases (depth + 1))) bound
  | .forLoop initializer condition increment (.mk phrases bodyLine) line, depth => by
      have hloop : ∀ depth,
          ((Stmt.loop (condition.getD (.literal (.bool true) line))
            (Body.lowerWith increment (.mk phrases bodyLine)) line).exec bound).IgnoresScope
              depth := by
        intro depth
        refine Exec.ignoresScope_repeatWhile _ (Exec.ignoresScope_inScope ?_) bound
        rw [Stmt.execAll_append]
        exact Exec.ignoresScope_bind (Phrase.ignoresScope_execAll bound phrases (depth + 1))
          fun _ => Stmt.ignoresScope_execAll_ofExpr bound (depth + 1) increment
      cases initializer with
      | none => exact hloop depth
      | some initializer =>
          refine Exec.ignoresScope_inScope
            (Exec.ignoresScope_bind (initializer.ignoresScope_exec bound depth) fun _ => ?_)
          exact Exec.ignoresScope_bind (hloop (depth + 1)) fun _ => Exec.ignoresScope_pure ()

theorem Branch.ignoresScope_exec (bound : Nat) : (branch : Branch) → (depth : Nat) →
    (branch.lower.exec bound).IgnoresScope depth
  | .mk condition (.mk phrases _) otherwise _, depth =>
      Exec.ignoresScope_bind (Exec.ignoresScope_eval condition) fun _ =>
        inStep_ite .rfl
          (fun _ => Exec.ignoresScope_inScope
            (Phrase.ignoresScope_execAll bound phrases (depth + 1)))
          fun _ => otherwise.ignoresScope_exec bound depth

theorem Otherwise.ignoresScope_exec (bound : Nat) : (otherwise : Otherwise) → (depth : Nat) →
    (Stmt.execElse bound otherwise.lower).IgnoresScope depth
  | .nothing, _ => Exec.ignoresScope_pure ()
  | .body (.mk phrases _), depth =>
      Exec.ignoresScope_inScope (Phrase.ignoresScope_execAll bound phrases (depth + 1))
  | .chained branch, depth => branch.ignoresScope_exec bound depth

theorem Phrase.ignoresScope_execAll (bound : Nat) : (phrases : List Phrase) → (depth : Nat) →
    (Stmt.execAll bound (Phrase.lowerAll phrases)).IgnoresScope depth
  | [], _ => Exec.ignoresScope_pure ()
  | phrase :: others, depth =>
      Exec.ignoresScope_bind (phrase.ignoresScope_exec bound depth) fun _ =>
        Phrase.ignoresScope_execAll bound others depth

end

end BeginCode
