import BeginCode.Report
import BeginCode.Token

/-!
# Reading tokens

A cursor is a position in a list of tokens together with what has been found on the way there. It
moves forward only, and never past the first end of input. A reading either yields a result or fails
with a syntax error; in both cases it leaves the cursor where it stopped.
-/

namespace BeginCode

structure Cursor where
  /-- The tokens that are left. -/
  rest : List Token
  /-- Whether an executable statement has begun in the program block. -/
  executable : Bool := false
  /-- Whether a program block has begun. -/
  codeSeen : Bool := false
  report : Report := .empty

/-- The kinds of tokens at which reading resumes after an error. -/
def Token.Kind.resumes : Kind → Bool
  | kwBegin | kwInt | kwChar | kwBool | kwFloat | kwString => true
  | kwScan | kwDisplay | kwIf | kwWhile | kwFor | kwEnd => true
  | endOfInput => true
  | _ => false

/-- The kinds of tokens that can begin an operand. -/
def Token.Kind.beginsOperand : Kind → Bool
  | kwNot | minus | plus | lineBreak | kwTrue | kwFalse | kwNil => true
  | integer | float | charLiteral | text | escape | identifier | leftParen => true
  | _ => false

namespace Cursor

/-- The current token. -/
def head (cursor : Cursor) : Token := cursor.rest.headD .pastEnd

def atEnd (cursor : Cursor) : Bool := cursor.head.kind == .endOfInput

def advance (cursor : Cursor) : Cursor :=
  if cursor.atEnd then cursor else { cursor with rest := cursor.rest.tail }

def sees (cursor : Cursor) (kind : Token.Kind) : Bool := cursor.head.kind == kind

/-- Whether the current token and the one after it have the given kinds. -/
def seesPair (cursor : Cursor) (first second : Token.Kind) : Bool :=
  match cursor.rest with
  | one :: two :: _ => one.kind == first && two.kind == second
  | _ => false

def addError (cursor : Cursor) (error : SyntaxError) : Cursor :=
  { cursor with report := cursor.report.add (.grammatical error) }

/-- Whether an operand of the line-break symbol follows on the symbol's line. The symbol itself
counts as a line end, so what follows it there has the next line number. Lines are natural numbers,
and the next one always exists: a source of a given length has at most one line more than
characters, so that no scanned line comes near the largest number of a machine word. -/
def seesOperand (cursor : Cursor) (symbol : Token) : Bool :=
  cursor.head.line ≤ symbol.line + 1 && cursor.head.kind.beginsOperand

/-- Skips to a token at which reading resumes. A construct that began with `start` tokens left and
consumed none of them loses its first token, so that reading always goes on. -/
def resume (cursor : Cursor) (start : Nat) : Cursor :=
  let cursor := if cursor.rest.length = start then cursor.advance else cursor
  { cursor with rest := cursor.rest.dropWhile fun token => !token.kind.resumes }

end Cursor

abbrev Reading := EStateM SyntaxError Cursor

namespace Reading

def head : Reading Token := return (← get).head

def advance : Reading Unit := modify Cursor.advance

/-- Fails at the current token. -/
def fail {α : Type} (cause : Token → SyntaxCause) : Reading α := do
  let token ← head
  throw ⟨cause token, token.line⟩

/-- Consumes a token of the given kind. -/
def expect (kind : Token.Kind) (message : String) : Reading Token := do
  let token ← head
  if token.kind = kind then
    advance
    return token
  else
    fail fun found => .unexpectedToken message found.describe

/-- Consumes the current token if it is of the given kind. -/
def accept (kind : Token.Kind) : Reading Bool := do
  if (← head).kind = kind then
    advance
    return true
  else
    return false

/-- Records an error and goes on. -/
def report (cause : SyntaxCause) (line : Nat) : Reading Unit := modify (·.addError ⟨cause, line⟩)

@[simp]
theorem run_head (cursor : Cursor) : head.run cursor = .ok cursor.head cursor := rfl

@[simp]
theorem run_advance (cursor : Cursor) : advance.run cursor = .ok () cursor.advance := rfl

@[simp]
theorem run_fail {α : Type} (cause : Token → SyntaxCause) (cursor : Cursor) :
    (fail cause : Reading α).run cursor = .error ⟨cause cursor.head, cursor.head.line⟩ cursor := rfl

theorem run_expect (kind : Token.Kind) (message : String) (cursor : Cursor) :
    (expect kind message).run cursor =
      if cursor.head.kind = kind then .ok cursor.head cursor.advance
      else .error ⟨.unexpectedToken message cursor.head.describe, cursor.head.line⟩ cursor := by
  simp only [expect, EStateM.run_bind, run_head]
  split <;> rfl

theorem run_accept (kind : Token.Kind) (cursor : Cursor) :
    (accept kind).run cursor =
      if cursor.head.kind = kind then .ok true cursor.advance else .ok false cursor := by
  simp only [accept, EStateM.run_bind, run_head]
  split <;> rfl

@[simp]
theorem run_report (cause : SyntaxCause) (line : Nat) (cursor : Cursor) :
    (report cause line).run cursor = .ok () (cursor.addError ⟨cause, line⟩) := rfl

/-- One or more items with commas between them. The bound is at least the number of tokens left. -/
def separated {α : Type} (item : Reading α) : Nat → Reading (List α)
  | 0 => return [← item]
  | bound + 1 => do
      let first ← item
      if ← accept .comma then
        return first :: (← separated item bound)
      else
        return [first]

end Reading

end BeginCode
