import BeginCode.Proofs.EmptyScopes
import BeginCode.Proofs.ProgramReading
import BeginCode.Proofs.Trace

/-!
# The meaning of `FOR`

A `FOR` in its own terms: within a scope for the loop variable, the initializer is run once; then,
as long as the condition holds, the body is run in a scope of its own and the increment outside of
it. The statement that a `FOR` is lowered to has the increment inside the scope of the body. Since
bodies declare nothing there, the lowered statement and the `FOR` do the same in every world.
-/

namespace BeginCode

namespace Exec

/-- Whether a loop goes on; one without a condition always does. -/
def holds : Option Expr → Exec Bool
  | none => return true
  | some condition => return (← ofEval condition.eval).truthy

/-- Evaluates an expression, if there is one, for what it assigns. -/
def effect : Option Expr → Exec Unit
  | none => return ()
  | some expr => do
      let _ ← ofEval expr.eval

/-- The rounds of a `FOR`, fewer than the bound. -/
def forRounds (condition increment : Option Expr) (body : Exec Unit) : Nat → Exec Unit
  | 0 => throw .outOfRounds
  | bound + 1 => do
      if ← holds condition then
        inScope body
        effect increment
        forRounds condition increment body bound

def forLoop (initializer : Exec Unit) (condition increment : Option Expr) (body : Exec Unit)
    (bound : Nat) : Exec Unit :=
  inScope do
    initializer
    forRounds condition increment body bound

end Exec

def Initializer.perform : Option Initializer → Exec Unit
  | none => return ()
  | some (declared type declarator) => Exec.declare type declarator.name declarator.initializer
  | some (expression expr) => Exec.effect expr

mutual

/-- What a phrase does, with `FOR` in its own terms at every depth. -/
def Phrase.perform (bound : Nat) : Phrase → Exec Unit
  | .display value line => do
      Exec.display (← Exec.ofEval value.eval) line
  | .scan first others line => Exec.scan (first :: others) line
  | .expression expr => Exec.effect expr
  | .conditional branch => branch.perform bound
  | .loop condition (.mk phrases _) _ =>
      Exec.repeatWhile condition (Exec.inScope (Phrase.performAll bound phrases)) bound
  | .forLoop initializer condition increment (.mk phrases _) _ =>
      Exec.forLoop (Initializer.perform initializer) condition increment
        (Phrase.performAll bound phrases) bound

def Branch.perform (bound : Nat) : Branch → Exec Unit
  | .mk condition (.mk phrases _) otherwise _ => do
      if (← Exec.ofEval condition.eval).truthy then
        Exec.inScope (Phrase.performAll bound phrases)
      else
        otherwise.perform bound

def Otherwise.perform (bound : Nat) : Otherwise → Exec Unit
  | .nothing => return ()
  | .body (.mk phrases _) => Exec.inScope (Phrase.performAll bound phrases)
  | .chained branch => branch.perform bound

def Phrase.performAll (bound : Nat) : List Phrase → Exec Unit
  | [] => return ()
  | phrase :: others => do
      phrase.perform bound
      Phrase.performAll bound others

end

/-- The declarations in order, then the phrases, in the scope of the program block. -/
def Program.Source.perform (program : Source) (bound : Nat) : Exec Unit :=
  Exec.inScope do
    Stmt.execAll bound (program.declarations.flatMap Declaration.lower)
    Phrase.performAll bound program.phrases

/-! ### Lowering keeps the meaning -/

theorem Stmt.execAll_ofExpr (bound : Nat) (increment : Option Expr) :
    Stmt.execAll bound (increment.toList.map .ofExpr) = Exec.effect increment := by
  cases increment with
  | none => rfl
  | some expr => exact bind_pure_unit

theorem Initializer.exec_lower (bound : Nat) (initializer : Initializer) :
    initializer.lower.exec bound = Initializer.perform (some initializer) := by
  cases initializer <;> rfl

/-- The scope of a body ends before the increment or after it: phrases leave it empty. -/
theorem Body.exec_lowerWith (bound : Nat) (increment : Option Expr) (phrases : List Phrase)
    (line : Nat) :
    (Body.lowerWith increment (.mk phrases line)).exec bound =
      Exec.inScope (Stmt.execAll bound (Phrase.lowerAll phrases)) >>= fun _ =>
        Exec.effect increment := by
  have hphrases := Phrase.ignoresScope_execAll bound phrases 0
  have hincrement := Stmt.ignoresScope_execAll_ofExpr bound 0 increment
  calc (Body.lowerWith increment (.mk phrases line)).exec bound
      = Exec.inScope (Stmt.execAll bound
          (Phrase.lowerAll phrases ++ increment.toList.map .ofExpr)) := rfl
    _ = Exec.inScope (Stmt.execAll bound (Phrase.lowerAll phrases) >>= fun _ =>
          Stmt.execAll bound (increment.toList.map .ofExpr)) := by rw [Stmt.execAll_append]
    _ = Stmt.execAll bound (Phrase.lowerAll phrases) >>= fun _ =>
          Stmt.execAll bound (increment.toList.map .ofExpr) :=
        (Exec.ignoresScope_bind hphrases fun _ => hincrement).inScope_eq
    _ = Exec.inScope (Stmt.execAll bound (Phrase.lowerAll phrases)) >>= fun _ =>
          Exec.effect increment := by rw [hphrases.inScope_eq, Stmt.execAll_ofExpr]

theorem Exec.holds_eq (condition : Option Expr) (line : Nat) :
    holds condition = ofEval (condition.getD (.literal (.bool true) line)).eval >>= fun value =>
      pure value.truthy := by
  cases condition <;> rfl

theorem Exec.repeatWhile_eq_forRounds (condition increment : Option Expr) (body : Exec Unit)
    (line bound : Nat) :
    repeatWhile (condition.getD (.literal (.bool true) line))
        (inScope body >>= fun _ => effect increment) bound =
      forRounds condition increment body bound := by
  induction bound with
  | zero => rfl
  | succ bound ih =>
      rw [repeatWhile, forRounds, holds_eq condition line, ih]
      simp only [bind_assoc, pure_bind]

theorem Phrase.exec_lower_forLoop (bound : Nat) (initializer : Option Initializer)
    (condition increment : Option Expr) (phrases : List Phrase) (bodyLine line : Nat) :
    (Phrase.forLoop initializer condition increment (.mk phrases bodyLine) line).lower.exec bound =
      Exec.forLoop (Initializer.perform initializer) condition increment
        (Stmt.execAll bound (Phrase.lowerAll phrases)) bound := by
  have hloop : (Stmt.loop (condition.getD (.literal (.bool true) line))
      (Body.lowerWith increment (.mk phrases bodyLine)) line).exec bound =
        Exec.forRounds condition increment (Stmt.execAll bound (Phrase.lowerAll phrases))
          bound := by
    rw [Stmt.exec, Body.exec_lowerWith, Exec.repeatWhile_eq_forRounds]
  cases initializer with
  | none =>
      have hignores := Phrase.ignoresScope_exec bound
        (.forLoop none condition increment (.mk phrases bodyLine) line) 0
      rw [Phrase.lower, hloop] at hignores ⊢
      rw [Exec.forLoop, Initializer.perform, pure_bind, hignores.inScope_eq]
  | some initializer =>
      rw [Phrase.lower, Stmt.exec, Stmt.execAll, Stmt.execAll, Stmt.execAll, hloop,
        initializer.exec_lower, bind_pure_unit, Exec.forLoop]

/-- Phrases are what makes this true: a variable declared in a body would capture the increment. -/
example :
    let b : Token := ⟨.identifier, "b", 1, none⟩
    let body : List Stmt := [.declare .bool b (some (.literal (.bool true) 1))]
    let increment : Expr := .assign b (.literal (.bool false) 1)
    let world : World := ⟨⟨[⟨[("b", ⟨.bool, .bool true⟩)]⟩]⟩, ⟨[], [], none⟩⟩
    ((Stmt.forLoop none (some (.variable b)) (some increment) body 1 1).exec 2).final world ≠
      (Exec.forLoop (pure ()) (some (.variable b)) (some increment) (Stmt.execAll 2 body) 2).final
        world := by
  decide

mutual

theorem Phrase.exec_lower (bound : Nat) : (phrase : Phrase) →
    phrase.lower.exec bound = phrase.perform bound
  | .display _ _ => rfl
  | .scan _ _ _ => rfl
  | .expression _ => rfl
  | .conditional branch => branch.exec_lower bound
  | .loop condition (.mk phrases _) _ => by
      rw [Phrase.lower, Phrase.perform, Stmt.exec, Body.lower, Stmt.exec,
        Phrase.execAll_lowerAll bound phrases]
  | .forLoop initializer condition increment (.mk phrases bodyLine) line => by
      rw [Phrase.exec_lower_forLoop, Phrase.perform, Phrase.execAll_lowerAll bound phrases]

theorem Branch.exec_lower (bound : Nat) : (branch : Branch) →
    branch.lower.exec bound = branch.perform bound
  | .mk condition (.mk phrases _) otherwise _ => by
      rw [Branch.lower, Branch.perform, Stmt.exec, Body.lower, Stmt.exec,
        Phrase.execAll_lowerAll bound phrases, otherwise.exec_lower bound]

theorem Otherwise.exec_lower (bound : Nat) : (otherwise : Otherwise) →
    Stmt.execElse bound otherwise.lower = otherwise.perform bound
  | .nothing => rfl
  | .body (.mk phrases _) => by
      rw [Otherwise.lower, Otherwise.perform, Stmt.execElse, Body.lower, Stmt.exec,
        Phrase.execAll_lowerAll bound phrases]
  | .chained branch => branch.exec_lower bound

theorem Phrase.execAll_lowerAll (bound : Nat) : (phrases : List Phrase) →
    Stmt.execAll bound (Phrase.lowerAll phrases) = Phrase.performAll bound phrases
  | [] => rfl
  | phrase :: others => by
      rw [Phrase.lowerAll, Stmt.execAll, Phrase.performAll, phrase.exec_lower bound,
        Phrase.execAll_lowerAll bound others]

end

namespace Program

theorem Source.exec_lower (program : Source) (bound : Nat) :
    program.lower.exec bound = program.perform bound := by
  rw [lower, Stmt.exec, statements, Stmt.execAll_append, Phrase.execAll_lowerAll, perform]

/-- In an accepted program every `FOR` is executed by its own rule, from any world and with the same
bound on the rounds of loops, and so is the whole program with the rule at every depth. -/
theorem exists_source_forLoop {source : String}
    (haccepted : (parse (scan source).tokens (scan source).report).2 = .empty) :
    ∃ program : Source,
      (parse (scan source).tokens (scan source).report).1 = [program.lower] ∧
      Source.Spelled (scan source).tokens program
        ((scan source).tokens.dropWhile fun token => token.kind != .endOfInput) ∧
      ∀ (bound : Nat) (world : World),
        (∀ initializer condition increment phrases bodyLine line,
          ((Phrase.forLoop initializer condition increment (.mk phrases bodyLine)
              line).lower.exec bound).run world =
            (Exec.forLoop (Initializer.perform initializer) condition increment
              (Stmt.execAll bound (Phrase.lowerAll phrases)) bound).run world) ∧
        (Stmt.execAll bound [program.lower]).run world = (program.perform bound).run world := by
  have hreport := report_eq_empty_of_parse haccepted
  rw [hreport] at haccepted ⊢
  obtain ⟨program, hparse, hspelled⟩ := parse_sound haccepted
  refine ⟨program, hparse, hspelled, fun bound world => ⟨?_, ?_⟩⟩
  · intro initializer condition increment phrases bodyLine line
    rw [Phrase.exec_lower_forLoop]
  · rw [Stmt.execAll, Stmt.execAll, program.exec_lower, bind_pure_unit]

/-- Three variables of one name: of the program and of two loops, one inside the other. -/
def shadowing : String :=
  "BEGIN CODE INT i = 7\nFOR (INT i = 0; i < 1; i = i + 1) BEGIN FOR\n" ++
    "FOR (INT i = 5; i < 6; i = i + 1) BEGIN FOR END FOR\nDISPLAY: i\nEND FOR DISPLAY: i END CODE"

theorem exists_source_forLoop_shadowing :
    (parse (scan shadowing).tokens (scan shadowing).report).2 = .empty ∧
      ∃ program : Source,
        (parse (scan shadowing).tokens (scan shadowing).report).1 = [program.lower] ∧
          ((program.perform 3).final { console := ⟨[], [], none⟩ }).console.output =
            Console.utf8 "0\n7\n" := by
  have hscanned : (parse (scan shadowing).tokens (scan shadowing).report).2 = .empty ∧
      ((Stmt.execAll 3 (parse (scan shadowing).tokens (scan shadowing).report).1).final
        { console := ⟨[], [], none⟩ }).console.output = Console.utf8 "0\n7\n" := by
    decide +kernel
  obtain ⟨program, hparse, -, hruns⟩ := exists_source_forLoop hscanned.1
  refine ⟨hscanned.1, program, hparse, ?_⟩
  have houtput := hscanned.2
  rw [hparse, Exec.final, (hruns 3 _).2] at houtput
  exact houtput

end Program

end BeginCode
