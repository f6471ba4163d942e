import BeginCode.Value

/-!
# Errors

An error is a cause and the source line it is charged to. The three phases of a run have causes of
their own: reading characters, reading tokens, and running the program.
-/

namespace BeginCode

inductive LexicalCause where
  | unexpectedCharacter (character : String)
  | unterminatedString
  | unterminatedCharacter
  | invalidCharacter
  | invalidEscape (character : String)
  | invalidNumber (literal : String)
  deriving DecidableEq, Repr

/-- `found` describes the token at which reading stopped. -/
inductive SyntaxCause where
  | unexpectedToken (message found : String)
  | expectedExpression (found : String)
  | invalidAssignmentTarget
  | declarationAfterExecutable
  | multipleCodeBlocks
  | missingCodeBlock
  | codeOutsideBlock (found : String)
  deriving DecidableEq, Repr

inductive RuntimeCause where
  | undefinedVariable (name : String)
  | typeMismatch (name : String) (expected : ValueType)
  | initializerMismatch (name : String) (expected : ValueType)
  | divisionByZero
  | expectedNumber (operator : String)
  | expectedNumbers (operator : String)
  | scanFieldCount (expected found : Nat)
  | overflow
  | inputOutput (details : String)
  deriving DecidableEq, Repr

/-- A cause at a source line. -/
structure Located (Cause : Type) where
  cause : Cause
  line : Nat
  deriving DecidableEq, Repr

abbrev LexicalError := Located LexicalCause

abbrev SyntaxError := Located SyntaxCause

abbrev RuntimeError := Located RuntimeCause

/-- What a message says after the line. -/
def LexicalCause.detail : LexicalCause → String
  | unexpectedCharacter character => ": Unexpected character '" ++ character ++ "'."
  | unterminatedString => ": Unterminated string."
  | unterminatedCharacter => ": Unterminated character."
  | invalidCharacter => ": Invalid character."
  | invalidEscape character => ": Invalid escape character '" ++ character ++ "'."
  | invalidNumber literal => ": Invalid number literal " ++ literal ++ "."

/-- What a message says after the line. -/
def SyntaxCause.detail : SyntaxCause → String
  | unexpectedToken message found => " at " ++ found ++ ": " ++ message
  | expectedExpression found => " at " ++ found ++ ": Expect expression."
  | invalidAssignmentTarget => ": Invalid assignment target."
  | declarationAfterExecutable => ": Cannot declare variables after executable code."
  | multipleCodeBlocks => ": Cannot allow multiple BEGIN CODE and END CODE declarations."
  | missingCodeBlock => ": Expect 'BEGIN CODE' at start of program."
  | codeOutsideBlock found => " at " ++ found ++ ": Expect 'BEGIN CODE' before code."

/-- What a message says after the line. -/
def RuntimeCause.detail : RuntimeCause → String
  | undefinedVariable name => ": Undefined variable '" ++ name ++ "'."
  | typeMismatch _ expected => ": Input must be of type " ++ expected.keyword ++ "."
  | initializerMismatch name expected =>
      ": Variable '" ++ name ++ "' must be initialized with a value of type " ++
        expected.keyword ++ "."
  | divisionByZero => ": Division by zero."
  | expectedNumber operator => ": Operand of '" ++ operator ++ "' must be a number."
  | expectedNumbers operator => ": Operands of '" ++ operator ++ "' must be numbers."
  | scanFieldCount expected found =>
      ": Expected " ++ Number.integerText expected ++ " input value(s) but found " ++
        Number.integerText found ++ "."
  | overflow => ": Integer overflow."
  | inputOutput details => ": Input/output failure: " ++ details ++ "."

def Located.message {Cause : Type} (detail : Cause → String) (error : Located Cause) : String :=
  "Error on line " ++ Number.integerText error.line ++ detail error.cause

end BeginCode
