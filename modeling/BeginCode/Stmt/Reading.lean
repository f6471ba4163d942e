import BeginCode.Expr.Reading
import BeginCode.Stmt

/-!
# Reading statements

A body is a list of declarations and statements up to its closing pair of keywords. When one of them
cannot be read, its error is recorded and reading resumes at the next token that can begin one.

Every reader takes a bound that is at least the number of tokens left, and `inner` reads one item of
a nested body.
-/

namespace BeginCode.Stmt

open BeginCode.Token (Kind)

/-- The items of a body, up to `END` and its closing keyword or the end of input. -/
def items (inner : Reading (List Stmt)) (closing : Kind) : Nat → Reading (List Stmt)
  | 0 => return []
  | bound + 1 => do
      let cursor ← get
      if cursor.seesPair .kwEnd closing || cursor.atEnd then
        return []
      else
        let first ← inner
        return first ++ (← items inner closing bound)

/-- The items of a body and the pair of keywords that closes it. -/
def body (inner : Reading (List Stmt)) (closing : Kind) (message : String) (bound : Nat) :
    Reading (List Stmt) := do
  let found ← items inner closing bound
  let _ ← Reading.expect .kwEnd message
  let _ ← Reading.expect closing message
  return found

/-- A body between `BEGIN` and `END`, with the line of its `BEGIN`. -/
def keywordBody (inner : Reading (List Stmt)) (keyword : Kind)
    (openMessage closeMessage : String) (bound : Nat) : Reading (Nat × List Stmt) := do
  let opening ← Reading.expect .kwBegin openMessage
  let _ ← Reading.expect keyword openMessage
  return (opening.line, ← body inner keyword closeMessage bound)

def keywordBlock (inner : Reading (List Stmt)) (keyword : Kind)
    (openMessage closeMessage : String) (bound : Nat) : Reading Stmt := do
  let (line, found) ← keywordBody inner keyword openMessage closeMessage bound
  return .block found line

/-- A name and its initializer, after the keyword of its type. -/
def declarator (type : ValueType) (bound : Nat) : Reading Stmt := do
  let name ← Reading.expect .identifier "Expect variable name."
  if ← Reading.accept .equals then
    return .declare type name (some (← Expr.readWithin bound))
  else
    return .declare type name none

/-- The declarations after a type keyword on line `line`. They are read even where they are not
allowed. -/
def declarations (type : ValueType) (line bound : Nat) : Reading (List Stmt) := do
  if (← get).executable then
    Reading.report .declarationAfterExecutable line
  Reading.separated (declarator type bound) bound

def startExecutable : Reading Unit := modify fun cursor => { cursor with executable := true }

/-- An `IF` statement after its keyword on line `line`. -/
def conditionalFrom (inner : Reading (List Stmt)) : Nat → Nat → Reading Stmt
  | 0, _ => Reading.fail fun found => .unexpectedToken "Expect '(' after 'IF'." found.describe
  | bound + 1, line => do
      let _ ← Reading.expect .leftParen "Expect '(' after 'IF'."
      let condition ← Expr.readWithin (bound + 1)
      let _ ← Reading.expect .rightParen "Expect ')' after if condition."
      let thenBranch ← keywordBlock inner .kwIf "Expect 'BEGIN IF' after ')'."
        "Expect 'END IF' after the statement body." (bound + 1)
      if ← Reading.accept .kwElse then
        let next ← Reading.head
        if ← Reading.accept .kwIf then
          let elseBranch ← conditionalFrom inner bound next.line
          return .conditional condition thenBranch (some elseBranch) line
        else
          let elseBranch ← keywordBlock inner .kwIf "Expect 'BEGIN IF' after 'ELSE'."
            "Expect 'END IF' after the statement body." (bound + 1)
          return .conditional condition thenBranch (some elseBranch) line
      else
        return .conditional condition thenBranch none line

/-- A `WHILE` statement after its keyword on line `line`. -/
def loopFrom (inner : Reading (List Stmt)) (bound line : Nat) : Reading Stmt := do
  let _ ← Reading.expect .leftParen "Expect '(' after 'WHILE'."
  let condition ← Expr.readWithin bound
  let _ ← Reading.expect .rightParen "Expect ')' after condition."
  let found ← keywordBlock inner .kwWhile "Expect 'BEGIN WHILE' after ')'."
    "Expect 'END WHILE' after statement body." bound
  return .loop condition found line

/-- A declaration or an expression before the first semicolon of a `FOR` statement. -/
def forClause (bound : Nat) : Reading Stmt := do
  match (← Reading.head).kind.valueType? with
  | some type =>
      Reading.advance
      declarator type bound
  | none => return .ofExpr (← Expr.readWithin bound)

/-- The first clause of a `FOR` statement with its semicolon. -/
def forInitializer (bound : Nat) : Reading (Option Stmt) := do
  if ← Reading.accept .semicolon then
    return none
  else
    let first ← forClause bound
    let _ ← Reading.expect .semicolon "Expect ';' after initializer."
    return some first

/-- An expression, unless the token that ends its clause comes at once. -/
def optionalClause (closing : Kind) (bound : Nat) : Reading (Option Expr) := do
  if (← get).sees closing then
    return none
  else
    return some (← Expr.readWithin bound)

/-- A `FOR` statement after its keyword on line `line`. -/
def forLoopFrom (inner : Reading (List Stmt)) (bound line : Nat) : Reading Stmt := do
  let _ ← Reading.expect .leftParen "Expect '(' after 'FOR'."
  let initializer ← forInitializer bound
  let condition ← optionalClause .semicolon bound
  let _ ← Reading.expect .semicolon "Expect ';' after loop condition."
  let increment ← optionalClause .rightParen bound
  let _ ← Reading.expect .rightParen "Expect ')' after for clauses."
  let (bodyLine, found) ← keywordBody inner .kwFor "Expect 'BEGIN FOR' after ')'."
    "Expect 'END FOR' after statement body." bound
  return .forLoop initializer condition increment found bodyLine line

/-- An executable statement. `DISPLAY` and `SCAN` close the declarations only once their colon has
been read. -/
def statement (inner : Reading (List Stmt)) (bound : Nat) : Reading Stmt := do
  let token ← Reading.head
  match token.kind with
  | .kwIf =>
      Reading.advance
      startExecutable
      conditionalFrom inner bound token.line
  | .kwWhile =>
      Reading.advance
      startExecutable
      loopFrom inner bound token.line
  | .kwFor =>
      Reading.advance
      startExecutable
      forLoopFrom inner bound token.line
  | .kwDisplay =>
      Reading.advance
      let _ ← Reading.expect .colon "Expect ':' after 'DISPLAY'."
      startExecutable
      return .display (← Expr.readWithin bound) token.line
  | .kwScan =>
      Reading.advance
      let _ ← Reading.expect .colon "Expect ':' after 'SCAN'."
      startExecutable
      let targets ←
        Reading.separated (Reading.expect .identifier "Expect variable name.") bound
      return .scan targets token.line
  | _ =>
      startExecutable
      return .ofExpr (← Expr.readWithin bound)

/-- A program block at its `BEGIN CODE`. Only the first one yields a statement; a later one is
reported and its body is read for further errors. -/
def codeBlock (inner : Reading (List Stmt)) (bound : Nat) : Reading (List Stmt) := do
  let cursor ← get
  let line := cursor.head.line
  Reading.advance
  Reading.advance
  if cursor.codeSeen then
    Reading.report .multipleCodeBlocks line
    let _ ← body inner .kwCode "Expect 'END CODE' after block." bound
    return []
  else
    modify fun cursor => { cursor with codeSeen := true, executable := false }
    return [.block (← body inner .kwCode "Expect 'END CODE' after block." bound) line]

/-- One item of a body: declarations, a misplaced program block or a statement. -/
def item (inner : Reading (List Stmt)) (bound : Nat) : Reading (List Stmt) := do
  let cursor ← get
  match cursor.head.kind.valueType? with
  | some type =>
      Reading.advance
      declarations type cursor.head.line bound
  | none =>
      if cursor.seesPair .kwBegin .kwCode then
        codeBlock inner bound
      else
        return [← statement inner bound]

/-- Reads a construct; if that fails, records the error and resumes after it with no statement. -/
def recovering (construct : Reading (List Stmt)) : Reading (List Stmt) := fun cursor =>
  match construct.run cursor with
  | .ok found after => .ok found after
  | .error error after => .ok [] ((after.addError error).resume cursor.rest.length)

theorem run_recovering (construct : Reading (List Stmt)) (cursor : Cursor) :
    (recovering construct).run cursor =
      match construct.run cursor with
      | .ok found after => .ok found after
      | .error error after => .ok [] ((after.addError error).resume cursor.rest.length) := rfl

/-- Reads one item of a body; bodies are nested at most `bound` deep. -/
def readItem : Nat → Reading (List Stmt)
  | 0 => return []
  | bound + 1 => recovering (item (readItem bound) (bound + 1))

end BeginCode.Stmt
