import BeginCode.Number.Decimal
import BeginCode.Report
import BeginCode.Source.Piece
import BeginCode.Token.Spelling

/-!
# Scanning

A source is read from left to right. Each step takes the longest stretch that one of the token
patterns matches, or a single character that starts none of them. Text literals, character literals
and bracket escapes are read by rules of their own, since one text literal can yield several tokens.

The line counter starts at one. It advances at every line end and at every line-break symbol `$`.
-/

namespace BeginCode.Source

/-- What a step has read: the pieces in order, the line afterwards, and the source that is left. -/
structure Step where
  pieces : List Piece
  line : Nat
  rest : List Char

/-- The step with further pieces before its own. -/
def Step.prepend (earlier : List Piece) (step : Step) : Step :=
  { step with pieces := earlier ++ step.pieces }

@[simp]
theorem Step.rest_prepend (earlier : List Piece) (step : Step) :
    (step.prepend earlier).rest = step.rest := rfl

def blanks (line : Nat) (first : Char) (rest : List Char) : Step :=
  ⟨[.skipped (first :: rest.takeWhile Token.separates)], line, rest.dropWhile Token.separates⟩

/-- A comment ends before the line end. -/
def comment (line : Nat) (rest : List Char) : Step :=
  ⟨[.skipped ('#' :: rest.takeWhile (· ≠ '\n'))], line, rest.dropWhile (· ≠ '\n')⟩

def word (line : Nat) (first : Char) (rest : List Char) : Step :=
  let text := first :: rest.takeWhile Token.continuesWord
  ⟨[.plain (.ofWord (String.ofList text)) text line], line, rest.dropWhile Token.continuesWord⟩

def integerPiece (digits : List Char) (line : Nat) : Piece :=
  match Number.readInt64? digits with
  | some n => .literal .integer digits line (.integer n)
  | none => .reject digits (.invalidNumber (String.ofList digits)) line

/-- The value of a float literal, its digits before and after the point being given. -/
def floatPiece (whole fraction : List Char) (line : Nat) : Piece :=
  .literal .float (whole ++ '.' :: fraction) line
    (.float (Number.Decimal.magnitude ⟨Number.ofDigits (whole ++ fraction), -fraction.length⟩))

/-- A point belongs to a number only when a digit follows it. -/
def number (line : Nat) (first : Char) (rest : List Char) : Step :=
  let whole := first :: rest.takeWhile Number.isDigit
  match rest.dropWhile Number.isDigit with
  | '.' :: after =>
      if (after.takeWhile Number.isDigit).isEmpty then
        ⟨[integerPiece whole line], line, '.' :: after⟩
      else
        ⟨[floatPiece whole (after.takeWhile Number.isDigit) line], line,
          after.dropWhile Number.isDigit⟩
  | after => ⟨[integerPiece whole line], line, after⟩

def symbolPiece (c : Char) (line : Nat) : Piece :=
  match Token.Kind.ofSymbol? c with
  | some kind => .plain kind [c] line
  | none => .reject [c] (.unexpectedCharacter (String.singleton c)) line

/-- A symbol of two characters comes before one of its first character alone. -/
def symbol (line : Nat) (first : Char) : List Char → Step
  | [] => ⟨[symbolPiece first line], line, []⟩
  | second :: rest =>
      match Token.Kind.ofPair? first second with
      | some kind => ⟨[.plain kind [first, second] line], line, rest⟩
      | none => ⟨[symbolPiece first line], line, second :: rest⟩

/-- A character literal closes on its line and holds exactly one character. -/
def character (line : Nat) (rest : List Char) : Step :=
  let content := rest.takeWhile fun c => c ≠ '\'' && c ≠ '\n'
  match rest.dropWhile fun c => c ≠ '\'' && c ≠ '\n' with
  | '\'' :: after =>
      let text := '\'' :: content ++ ['\'']
      match content with
      | [c] => ⟨[.literal .charLiteral text line (.char c)], line, after⟩
      | _ => ⟨[.reject text .invalidCharacter line], line, after⟩
  | after => ⟨[.reject ('\'' :: content) .unterminatedCharacter line], line, after⟩

/-- A bracket escape is an escapable character in brackets. When no bracket closes it, only the
opening bracket is rejected. -/
def bracket (line : Nat) : List Char → Step
  | c :: ']' :: after =>
      if c ∈ Token.escapable then
        ⟨[.literal .escape ['[', c, ']'] line (.char c)], line, after⟩
      else
        ⟨[.reject ['[', c, ']'] (.invalidEscape (String.singleton c)) line], line, after⟩
  | c :: after =>
      ⟨[.reject ['['] (.invalidEscape (String.singleton c)) line], line, c :: after⟩
  | [] => ⟨[.reject ['['] (.invalidEscape "") line], line, []⟩

/-- The piece of a text segment before a line break inside its literal. -/
def segment (lead content : List Char) (line : Nat) : List Piece :=
  if lead.isEmpty && content.isEmpty then []
  else [.literal .text (lead ++ content) line (.text (String.ofList content))]

/-- The piece of the segment that closes a literal. The words `TRUE` and `FALSE` are truth values
there. -/
def lastSegment (lead content : List Char) (line : Nat) : Piece :=
  let lexeme := lead ++ content ++ ['"']
  if content = "TRUE".toList then .literal .kwTrue lexeme line (.bool true)
  else if content = "FALSE".toList then .literal .kwFalse lexeme line (.bool false)
  else .literal .text lexeme line (.text (String.ofList content))

/-- Reads on in a text literal. The open segment consists of `lead`, the opening quote of a first
segment, and of the characters `content`, the latest one first; it began on line `start`. -/
def quoted (lead content : List Char) (start line : Nat) : List Char → Step
  | [] => ⟨[.reject (lead ++ content.reverse) .unterminatedString line], line, []⟩
  | '"' :: rest => ⟨[lastSegment lead content.reverse start], line, rest⟩
  | '$' :: rest =>
      (quoted [] [] (line + 1) (line + 1) rest).prepend
        (segment lead content.reverse start ++ [.plain .lineBreak ['$'] line])
  | '\n' :: rest => quoted lead ('\n' :: content) start (line + 1) rest
  | c :: rest => quoted lead (c :: content) start line rest

/-- One step from the character `first`, with the source after it. -/
def step (line : Nat) (first : Char) (rest : List Char) : Step :=
  if first = '\n' then ⟨[.skipped ['\n']], line + 1, rest⟩
  else if first = '$' then ⟨[.plain .lineBreak ['$'] line], line + 1, rest⟩
  else if first = '#' then comment line rest
  else if first = '"' then quoted ['"'] [] line line rest
  else if first = '\'' then character line rest
  else if first = '[' then bracket line rest
  else if Token.separates first then blanks line first rest
  else if Number.isDigit first then number line first rest
  else if Token.startsWord first then word line first rest
  else symbol line first rest

theorem length_dropWhile_le (p : Char → Bool) (text : List Char) :
    (text.dropWhile p).length ≤ text.length :=
  (List.dropWhile_sublist p).length_le

theorem length_rest_quoted_le (lead content : List Char) (start line : Nat) (text : List Char) :
    (quoted lead content start line text).rest.length ≤ text.length := by
  fun_induction quoted lead content start line text <;> simp_all <;> omega

theorem length_rest_number_le (line : Nat) (first : Char) (rest : List Char) :
    (number line first rest).rest.length ≤ rest.length := by
  have hdrop := length_dropWhile_le Number.isDigit rest
  simp only [number]
  split
  · rename_i after hafter
    rw [hafter] at hdrop
    split
    · exact hdrop
    · have := length_dropWhile_le Number.isDigit after
      simp only [List.length_cons] at hdrop ⊢
      omega
  · exact hdrop

theorem length_rest_symbol_le (line : Nat) (first : Char) (rest : List Char) :
    (symbol line first rest).rest.length ≤ rest.length := by
  cases rest with
  | nil => simp [symbol]
  | cons second rest =>
      simp only [symbol]
      split <;> simp

theorem length_rest_character_le (line : Nat) (rest : List Char) :
    (character line rest).rest.length ≤ rest.length := by
  have hdrop := length_dropWhile_le (fun c => c ≠ '\'' && c ≠ '\n') rest
  simp only [character]
  split
  · rename_i after hafter
    rw [hafter] at hdrop
    simp only [List.length_cons] at hdrop
    split <;> simp only <;> omega
  · exact hdrop

theorem length_rest_bracket_le (line : Nat) (rest : List Char) :
    (bracket line rest).rest.length ≤ rest.length := by
  unfold bracket
  split
  · split <;> simp <;> omega
  · simp
  · simp

/-- A step consumes at least its first character. -/
theorem length_rest_step_le (line : Nat) (first : Char) (rest : List Char) :
    (step line first rest).rest.length ≤ rest.length := by
  unfold step
  split
  · simp
  split
  · simp
  split
  · exact length_dropWhile_le _ rest
  split
  · exact length_rest_quoted_le _ _ _ _ rest
  split
  · exact length_rest_character_le line rest
  split
  · exact length_rest_bracket_le line rest
  split
  · exact length_dropWhile_le _ rest
  split
  · exact length_rest_number_le line first rest
  split
  · exact length_dropWhile_le _ rest
  · exact length_rest_symbol_le line first rest

/-- The pieces of a source that begins on the given line, and the line on which it ends. -/
def pieces (line : Nat) : List Char → List Piece × Nat
  | [] => ([], line)
  | first :: rest =>
      let found := step line first rest
      let after := pieces found.line found.rest
      (found.pieces ++ after.1, after.2)
termination_by source => source.length
decreasing_by
  have := length_rest_step_le line first rest
  simp only [List.length_cons]
  omega

end BeginCode.Source

namespace BeginCode

/-- A scanned source: its pieces and the line on which it ends. -/
structure Scan where
  pieces : List Piece
  lastLine : Nat

def scan (source : String) : Scan :=
  let found := Source.pieces 1 source.toList
  ⟨found.1, found.2⟩

namespace Scan

/-- The tokens in order, closed by the end of input. -/
def tokens (scan : Scan) : List Token :=
  scan.pieces.filterMap Piece.token? ++
    [{ kind := .endOfInput, lexeme := "", line := scan.lastLine }]

def errors (scan : Scan) : List LexicalError := scan.pieces.filterMap Piece.error?

def report (scan : Scan) : Report := ⟨scan.errors.map .lexical⟩

end Scan

end BeginCode
