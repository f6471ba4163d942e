import BeginCode.Source.Scan
import BeginCode.Stmt.Exec
import BeginCode.Stmt.Reading

/-!
# Programs

A source is scanned, its tokens are read, and the program is executed if nothing was reported.
-/

namespace BeginCode

namespace Program

/-- A program block, or an error for any other token. -/
def topLevel (bound : Nat) : Reading (List Stmt) := do
  if (← get).seesPair .kwBegin .kwCode then
    Stmt.codeBlock (Stmt.readItem bound) bound
  else
    Reading.fail fun found => .codeOutsideBlock found.describe

/-- Everything up to the end of input; the second bound limits the number of constructs. -/
def topLevels (bound : Nat) : Nat → Reading (List Stmt)
  | 0 => return []
  | rounds + 1 => do
      if (← get).atEnd then
        return []
      else
        let first ← Stmt.recovering (topLevel bound)
        return first ++ (← topLevels bound rounds)

/-- Reads all that is left. A program without a block is reported unless an error was before. -/
def read : Reading (List Stmt) := do
  let bound := (← get).rest.length
  let found ← topLevels bound bound
  let cursor ← get
  if !cursor.codeSeen && !cursor.report.hasStaticError then
    Reading.report .missingCodeBlock cursor.head.line
  return found

/-- The statements of a list of tokens and the errors found in it, after those of the report. -/
def parse (tokens : List Token) (report : Report) : List Stmt × Report :=
  match read.run { rest := tokens, report } with
  | .ok found cursor => (found, cursor.report)
  | .error _ cursor => ([], cursor.report)

/-- A finished run: what was reported, and the console afterwards. -/
structure Run where
  report : Report
  console : Console

/-- Executes statements from the root scope; yields nothing when a loop has too many rounds. -/
def execute (bound : Nat) (statements : List Stmt) (console : Console) : Option Run :=
  match (Stmt.execAll bound statements).run { console } with
  | .ok () world => some ⟨.empty, world.console⟩
  | .error (.fault error) world => some ⟨Report.empty.add (.runtime error), world.console⟩
  | .error .outOfRounds _ => none

/-- Runs a source. Nothing is executed when scanning or parsing reports an error. -/
def run (bound : Nat) (source : String) (console : Console) : Option Run :=
  let scanned := scan source
  let (statements, report) := parse scanned.tokens scanned.report
  if report.hasStaticError then some ⟨report, console⟩ else execute bound statements console

end Program

end BeginCode
