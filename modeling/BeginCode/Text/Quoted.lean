import BeginCode.Text.Hidden

/-!
# Quoted text

Text between double quotes. A quote, a backslash and the common control characters are written with
a backslash, and any other hidden character by its code point.
-/

namespace BeginCode.Text

/-- A code point in braces, in hexadecimal. -/
def codePoint (c : Char) : List Char :=
  ['\\', 'u', '\x7b'] ++ Nat.toDigits 16 c.toNat ++ ['\x7d']

def escaped (c : Char) : List Char :=
  match c with
  | '"' => ['\\', '"']
  | '\\' => ['\\', '\\']
  | '\x00' => ['\\', '0']
  | '\n' => ['\\', 'n']
  | '\r' => ['\\', 'r']
  | '\t' => ['\\', 't']
  | c => if isHidden c then codePoint c else [c]

def quoted (text : List Char) : List Char := '"' :: text.flatMap escaped ++ ['"']

end BeginCode.Text
