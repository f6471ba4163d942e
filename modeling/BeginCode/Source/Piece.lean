import BeginCode.Error
import BeginCode.Token

/-!
# Pieces of source text

Scanning cuts a source into pieces: the texts of tokens, skipped text, and text that is rejected
with an error. The pieces in order make up the whole source.
-/

namespace BeginCode

inductive Piece where
  | token (token : Token)
  | skipped (text : List Char)
  | rejected (text : List Char) (error : LexicalError)
  deriving DecidableEq, Repr

namespace Piece

/-- The stretch of source that the piece covers. -/
def text : Piece → List Char
  | .token found => found.lexeme.toList
  | .skipped text => text
  | .rejected text _ => text

def token? : Piece → Option Token
  | .token found => some found
  | _ => none

def error? : Piece → Option LexicalError
  | .rejected _ error => some error
  | _ => none

/-- The piece of a token without a literal. -/
def plain (kind : Token.Kind) (lexeme : List Char) (line : Nat) : Piece :=
  .token { kind, lexeme := String.ofList lexeme, line }

/-- The piece of a token with a literal. -/
def literal (kind : Token.Kind) (lexeme : List Char) (line : Nat) (value : Value) : Piece :=
  .token { kind, lexeme := String.ofList lexeme, line, literal := some value }

def reject (text : List Char) (cause : LexicalCause) (line : Nat) : Piece :=
  .rejected text ⟨cause, line⟩

end Piece

end BeginCode
