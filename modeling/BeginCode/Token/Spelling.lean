import BeginCode.Token

/-!
# Spellings

The fixed texts of keywords and symbols, the characters of words, and the characters that a bracket
escape may hold.
-/

namespace BeginCode.Token.Kind

/-- Only the words that head a control statement have a second, lower-case spelling. -/
def keywords : List (String × Kind) :=
  [("BEGIN", kwBegin), ("END", kwEnd), ("CODE", kwCode), ("IF", kwIf), ("if", kwIf),
    ("ELSE", kwElse), ("else", kwElse), ("WHILE", kwWhile), ("while", kwWhile), ("FOR", kwFor),
    ("for", kwFor), ("DISPLAY", kwDisplay), ("SCAN", kwScan), ("NIL", kwNil), ("TRUE", kwTrue),
    ("FALSE", kwFalse), ("AND", kwAnd), ("OR", kwOr), ("NOT", kwNot), ("INT", kwInt),
    ("CHAR", kwChar), ("BOOL", kwBool), ("FLOAT", kwFloat), ("STRING", kwString)]

/-- A keyword comes before an identifier of the same spelling. -/
def ofWord (word : String) : Kind := (keywords.lookup word).getD identifier

/-- The kind of a symbol of two characters. -/
def ofPair? : Char → Char → Option Kind
  | '=', '=' => some equalEqual
  | '<', '>' => some notEqual
  | '<', '=' => some lessEqual
  | '>', '=' => some greaterEqual
  | _, _ => none

/-- The kind of a symbol of one character. -/
def ofSymbol? : Char → Option Kind
  | '(' => some leftParen
  | ')' => some rightParen
  | ',' => some comma
  | ':' => some colon
  | ';' => some semicolon
  | '-' => some minus
  | '+' => some plus
  | '*' => some star
  | '/' => some slash
  | '%' => some percent
  | '&' => some ampersand
  | '=' => some equals
  | '<' => some less
  | '>' => some greater
  | _ => none

end BeginCode.Token.Kind

namespace BeginCode.Token

def startsWord (c : Char) : Bool :=
  ('a' ≤ c && c ≤ 'z') || ('A' ≤ c && c ≤ 'Z') || c = '_'

def continuesWord (c : Char) : Bool := startsWord c || ('0' ≤ c && c ≤ '9')

/-- Blanks that separate tokens; a line end is not one of them. -/
def separates (c : Char) : Bool := c = ' ' || c = '\t' || c = '\r' || c = '\x0c'

/-- The characters that may stand in a bracket escape such as `[&]`. -/
def escapable : List Char :=
  ['[', ']', '&', '$', '#', '\'', '"', '%', '+', '-', '*', '/', '<', '>', '=', '(', ')', ',', ':',
    ';']

end BeginCode.Token
