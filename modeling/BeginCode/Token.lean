import BeginCode.Value

/-!
# Tokens

A token is a classified stretch of source text with the line it starts on. Literal tokens carry the
value that their text denotes.
-/

namespace BeginCode

/-- Kinds of tokens. An opening quote, apostrophe or bracket, a comment, a line end and a run of
blanks are recognised as well, but never become tokens on their own. -/
inductive Token.Kind where
  | leftParen
  | rightParen
  | comma
  | colon
  | semicolon
  | minus
  | plus
  | star
  | slash
  | percent
  | ampersand
  | equals
  | equalEqual
  | notEqual
  | less
  | lessEqual
  | greater
  | greaterEqual
  | lineBreak
  | apostrophe
  | doubleQuote
  | leftBracket
  | float
  | integer
  | charLiteral
  | text
  | escape
  | kwBegin
  | kwEnd
  | kwCode
  | kwIf
  | kwElse
  | kwWhile
  | kwFor
  | kwDisplay
  | kwScan
  | kwNil
  | kwTrue
  | kwFalse
  | kwAnd
  | kwOr
  | kwNot
  | kwInt
  | kwChar
  | kwBool
  | kwFloat
  | kwString
  | identifier
  | comment
  | newLine
  | ignored
  | endOfInput
  deriving DecidableEq, Repr

namespace Token.Kind

/-- The name of the kind in token listings. -/
def name : Kind → String
  | leftParen => "LParen"
  | rightParen => "RParen"
  | comma => "Comma"
  | colon => "Colon"
  | semicolon => "Semicolon"
  | minus => "Minus"
  | plus => "Plus"
  | star => "Star"
  | slash => "Slash"
  | percent => "Percent"
  | ampersand => "Ampersand"
  | equals => "Equals"
  | equalEqual => "EqualEqual"
  | notEqual => "NotEqual"
  | less => "Less"
  | lessEqual => "LessEqual"
  | greater => "Greater"
  | greaterEqual => "GreaterEqual"
  | lineBreak => "LineBreak"
  | apostrophe => "Apostrophe"
  | doubleQuote => "DoubleQuote"
  | leftBracket => "LBracket"
  | float => "Float"
  | integer => "Integer"
  | charLiteral => "CharLiteral"
  | text => "Text"
  | escape => "Escape"
  | kwBegin => "Begin"
  | kwEnd => "End"
  | kwCode => "Code"
  | kwIf => "If"
  | kwElse => "Else"
  | kwWhile => "While"
  | kwFor => "For"
  | kwDisplay => "Display"
  | kwScan => "Scan"
  | kwNil => "Nil"
  | kwTrue => "True"
  | kwFalse => "False"
  | kwAnd => "And"
  | kwOr => "Or"
  | kwNot => "Not"
  | kwInt => "Int"
  | kwChar => "Char"
  | kwBool => "Bool"
  | kwFloat => "FloatKeyword"
  | kwString => "StringKeyword"
  | identifier => "Identifier"
  | comment => "Comment"
  | newLine => "NewLine"
  | ignored => "Ignored"
  | endOfInput => "Eof"

def all : List Kind :=
  [leftParen, rightParen, comma, colon, semicolon, minus, plus, star, slash, percent, ampersand,
    equals, equalEqual, notEqual, less, lessEqual, greater, greaterEqual, lineBreak, apostrophe,
    doubleQuote, leftBracket, float, integer, charLiteral, text, escape, kwBegin, kwEnd, kwCode,
    kwIf, kwElse, kwWhile, kwFor, kwDisplay, kwScan, kwNil, kwTrue, kwFalse, kwAnd, kwOr, kwNot,
    kwInt, kwChar, kwBool, kwFloat, kwString, identifier, comment, newLine, ignored, endOfInput]

def ofName? (name : String) : Option Kind := all.find? fun kind => kind.name == name

/-- The type that a declaration keyword names. -/
def valueType? : Kind → Option ValueType
  | kwInt => some .int
  | kwChar => some .char
  | kwBool => some .bool
  | kwFloat => some .float
  | kwString => some .string
  | _ => none

end Token.Kind

structure Token where
  kind : Token.Kind
  lexeme : String
  line : Nat
  literal : Option Value := none
  deriving DecidableEq, Repr

/-- How a message names the token. -/
def Token.describe (token : Token) : String :=
  if token.kind = .endOfInput then "end of input" else "'" ++ token.lexeme ++ "'"

/-- What is seen after the last token. -/
def Token.pastEnd : Token := { kind := .endOfInput, lexeme := "", line := 0 }

end BeginCode
