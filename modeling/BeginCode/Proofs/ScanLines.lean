import BeginCode.Proofs.ScanSteps

/-!
# Scanning line by line

Where a source is scanned without an error, no piece of it is left open at its end. A line end and
another source after it are then scanned as if that source stood alone, on later lines.

There are two parts to this. The line on which scanning begins only moves the lines that it finds,
which is `Source.pieces_shift`. And a step without an error does not depend on what comes after the
next line end, which is `Source.Reader.extend`.
-/

namespace BeginCode

/-! ### Later lines -/

/-- The same token, a number of lines further down. -/
def Token.shift (lines : Nat) (token : Token) : Token := { token with line := token.line + lines }

def Located.shift {Cause : Type} (lines : Nat) (error : Located Cause) : Located Cause :=
  { error with line := error.line + lines }

namespace Piece

def shift (lines : Nat) : Piece → Piece
  | .token found => .token (found.shift lines)
  | .skipped text => .skipped text
  | .rejected text error => .rejected text (error.shift lines)

theorem token?_shift (lines : Nat) (piece : Piece) :
    (piece.shift lines).token? = piece.token?.map (Token.shift lines) := by
  cases piece <;> rfl

theorem error?_shift (lines : Nat) (piece : Piece) :
    (piece.shift lines).error? = piece.error?.map (Located.shift lines) := by
  cases piece <;> rfl

/-- What is found among shifted pieces is what is found among the pieces themselves, shifted. -/
theorem filterMap_shift {α : Type} {find? : Piece → Option α} {move : α → α} {lines : Nat}
    (hfind : ∀ piece : Piece, find? (piece.shift lines) = (find? piece).map move)
    (pieces : List Piece) :
    (pieces.map (shift lines)).filterMap find? = (pieces.filterMap find?).map move := by
  rw [List.filterMap_map, List.map_filterMap]
  congr 1
  funext piece
  exact hfind piece

end Piece

namespace Source

def Step.shift (lines : Nat) (step : Step) : Step :=
  { step with pieces := step.pieces.map (Piece.shift lines), line := step.line + lines }

theorem Step.shift_prepend (lines : Nat) (earlier : List Piece) (step : Step) :
    (step.prepend earlier).shift lines =
      (step.shift lines).prepend (earlier.map (Piece.shift lines)) := by
  simp only [Step.prepend, Step.shift, List.map_append]

section Shift

variable (line lines : Nat)

theorem integerPiece_shift (digits : List Char) :
    integerPiece digits (line + lines) = (integerPiece digits line).shift lines := by
  unfold integerPiece
  split <;> rfl

theorem number_shift (first : Char) (rest : List Char) :
    number (line + lines) first rest = (number line first rest).shift lines := by
  unfold number
  dsimp only
  split
  · split
    · rw [integerPiece_shift]
      rfl
    · rfl
  · rw [integerPiece_shift]
    rfl

theorem symbolPiece_shift (c : Char) :
    symbolPiece c (line + lines) = (symbolPiece c line).shift lines := by
  unfold symbolPiece
  split <;> rfl

theorem symbol_shift (first : Char) (rest : List Char) :
    symbol (line + lines) first rest = (symbol line first rest).shift lines := by
  cases rest with
  | nil =>
      rw [symbol, symbolPiece_shift]
      rfl
  | cons second rest =>
      rw [symbol, symbol]
      cases Token.Kind.ofPair? first second with
      | some kind => rfl
      | none =>
          dsimp only
          rw [symbolPiece_shift]
          rfl

theorem character_shift (rest : List Char) :
    character (line + lines) rest = (character line rest).shift lines := by
  unfold character
  dsimp only
  split
  · split <;> rfl
  · rfl

theorem bracket_shift (rest : List Char) :
    bracket (line + lines) rest = (bracket line rest).shift lines := by
  unfold bracket
  split
  · split <;> rfl
  · rfl
  · rfl

theorem segment_shift (lead content : List Char) :
    segment lead content (line + lines) = (segment lead content line).map (Piece.shift lines) := by
  unfold segment
  split <;> rfl

theorem lastSegment_shift (lead content : List Char) :
    lastSegment lead content (line + lines) = (lastSegment lead content line).shift lines := by
  unfold lastSegment
  dsimp only
  split
  · rfl
  split <;> rfl

/-- In an open literal both the line of its segment and the current line move. -/
theorem quoted_shift (lead content : List Char) (start : Nat) (text : List Char) :
    quoted lead content (start + lines) (line + lines) text =
      (quoted lead content start line text).shift lines := by
  fun_induction quoted lead content start line text with
  | case1 => rfl
  | case2 lead content start line rest =>
      rw [quoted, lastSegment_shift]
      rfl
  | case3 lead content start line rest ih =>
      rw [quoted, Nat.add_right_comm line lines 1, ih, Step.shift_prepend, segment_shift,
        List.map_append]
      rfl
  | case4 lead content start line rest ih => rw [quoted, Nat.add_right_comm line lines 1, ih]
  | case5 lead content start line c rest hquote hbreak hend ih => rw [quoted, ih] <;> assumption

theorem Reader.shift {first : Char} {reader : Nat → List Char → Step}
    (hreader : Reader first reader) (rest : List Char) :
    reader (line + lines) rest = (reader line rest).shift lines := by
  cases hreader with
  | lineEnd =>
      dsimp only
      rw [Nat.add_right_comm]
      rfl
  | lineBreak =>
      dsimp only
      rw [Nat.add_right_comm]
      rfl
  | comment => rfl
  | quoted => exact quoted_shift line lines _ _ line rest
  | character => exact character_shift line lines rest
  | bracket => exact bracket_shift line lines rest
  | blanks => rfl
  | number => exact number_shift line lines first rest
  | word => rfl
  | symbol => exact symbol_shift line lines first rest

/-- A source that begins further down has the same pieces there. -/
theorem pieces_shift (source : List Char) :
    pieces (line + lines) source =
      ((pieces line source).1.map (Piece.shift lines), (pieces line source).2 + lines) := by
  fun_induction pieces line source with
  | case1 => rw [pieces, List.map_nil]
  | case2 line first rest found after ih =>
      have hstep : step (line + lines) first rest = found.shift lines :=
        (reader_step first).shift line lines rest
      rw [pieces, hstep, Step.shift, ih, List.map_append]

end Shift

/-! ### Text after a line end -/

/-- The step with further source after what it has left. -/
def Step.extend (step : Step) (more : List Char) : Step := { step with rest := step.rest ++ more }

def Step.errors (step : Step) : List LexicalError := step.pieces.filterMap Piece.error?

theorem Step.errors_prepend (earlier : List Piece) (step : Step) :
    (step.prepend earlier).errors = earlier.filterMap Piece.error? ++ step.errors :=
  List.filterMap_append

section Extend

variable (line : Nat) (rest after : List Char)

theorem takeWhile_append_lineEnd {p : Char → Bool} (hstop : p '\n' = false) :
    (rest ++ '\n' :: after).takeWhile p = rest.takeWhile p := by
  induction rest with
  | nil => simp [hstop]
  | cons c rest ih =>
      rw [List.cons_append, List.takeWhile_cons, List.takeWhile_cons, ih]

theorem dropWhile_append_lineEnd {p : Char → Bool} (hstop : p '\n' = false) :
    (rest ++ '\n' :: after).dropWhile p = rest.dropWhile p ++ '\n' :: after := by
  induction rest with
  | nil => simp [hstop]
  | cons c rest ih =>
      rw [List.cons_append, List.dropWhile_cons, List.dropWhile_cons, ih]
      by_cases hc : p c = true
      · rw [if_pos hc, if_pos hc]
      · rw [if_neg hc, if_neg hc, List.cons_append]

theorem blanks_extend (first : Char) :
    blanks line first (rest ++ '\n' :: after) =
      (blanks line first rest).extend ('\n' :: after) := by
  have hstop : Token.separates '\n' = false := by decide
  rw [blanks, takeWhile_append_lineEnd rest after hstop, dropWhile_append_lineEnd rest after hstop]
  rfl

theorem comment_extend :
    comment line (rest ++ '\n' :: after) = (comment line rest).extend ('\n' :: after) := by
  have hstop : decide ('\n' ≠ '\n') = false := by decide
  rw [comment, takeWhile_append_lineEnd rest after hstop, dropWhile_append_lineEnd rest after hstop]
  rfl

theorem word_extend (first : Char) :
    word line first (rest ++ '\n' :: after) = (word line first rest).extend ('\n' :: after) := by
  have hstop : Token.continuesWord '\n' = false := by decide
  rw [word, takeWhile_append_lineEnd rest after hstop, dropWhile_append_lineEnd rest after hstop]
  rfl

/-- A point at the end of the first source is no part of a number, and neither is the line end. -/
theorem number_extend (first : Char) :
    number line first (rest ++ '\n' :: after) =
      (number line first rest).extend ('\n' :: after) := by
  have hstop : Number.isDigit '\n' = false := by decide
  unfold number
  rw [takeWhile_append_lineEnd rest after hstop, dropWhile_append_lineEnd rest after hstop]
  dsimp only
  cases hdigits : rest.dropWhile Number.isDigit with
  | nil => rfl
  | cons c others =>
      by_cases hpoint : c = '.'
      · subst hpoint
        simp only [List.cons_append]
        rw [takeWhile_append_lineEnd others after hstop,
          dropWhile_append_lineEnd others after hstop]
        split <;> rfl
      · rw [List.cons_append]
        split
        · rename_i heq
          exact absurd (List.cons.inj heq).1 hpoint
        · split
          · rename_i heq
            exact absurd (List.cons.inj heq).1 hpoint
          · rfl

theorem symbol_extend (first : Char) :
    symbol line first (rest ++ '\n' :: after) =
      (symbol line first rest).extend ('\n' :: after) := by
  cases rest with
  | nil =>
      have hpair : Token.Kind.ofPair? first '\n' = none := by
        unfold Token.Kind.ofPair?
        split <;> simp_all
      rw [List.nil_append, symbol, symbol, hpair]
      rfl
  | cons second rest =>
      rw [List.cons_append, symbol, symbol]
      split <;> rfl

theorem character_extend :
    character line (rest ++ '\n' :: after) = (character line rest).extend ('\n' :: after) := by
  have hstop : (decide ('\n' ≠ '\'') && decide ('\n' ≠ '\n')) = false := by decide
  unfold character
  rw [takeWhile_append_lineEnd rest after hstop, dropWhile_append_lineEnd rest after hstop]
  dsimp only
  cases hcontent : rest.dropWhile fun c => c ≠ '\'' && c ≠ '\n' with
  | nil => rfl
  | cons c others =>
      by_cases hquote : c = '\''
      · subst hquote
        simp only [List.cons_append]
        split <;> rfl
      · rw [List.cons_append]
        split
        · rename_i heq
          exact absurd (List.cons.inj heq).1 hquote
        · split
          · rename_i heq
            exact absurd (List.cons.inj heq).1 hquote
          · rfl

/-- A bracket at the very end would be judged by the line end after it, but it is an error. -/
theorem bracket_extend (hsilent : (bracket line rest).errors = []) :
    bracket line (rest ++ '\n' :: after) = (bracket line rest).extend ('\n' :: after) := by
  cases rest with
  | nil => cases hsilent
  | cons c rest =>
      cases rest with
      | nil => cases hsilent
      | cons second rest =>
          by_cases hclosed : second = ']'
          · subst hclosed
            rw [List.cons_append, List.cons_append, bracket, bracket]
            split <;> rfl
          · rw [bracket] at hsilent
            · cases hsilent
            · exact fun _ heq => hclosed (List.cons.inj heq).1

/-- A literal without an error is closed, so its quote ends the step. -/
theorem quoted_extend {lead content : List Char} {start : Nat}
    (hsilent : (quoted lead content start line rest).errors = []) :
    quoted lead content start line (rest ++ after) =
      (quoted lead content start line rest).extend after := by
  fun_induction quoted lead content start line rest with
  | case1 => cases hsilent
  | case2 => rfl
  | case3 lead content start line rest ih =>
      rw [Step.errors_prepend, List.append_eq_nil_iff] at hsilent
      rw [List.cons_append, quoted, ih hsilent.2]
      rfl
  | case4 lead content start line rest ih => rw [List.cons_append, quoted, ih hsilent]
  | case5 lead content start line c rest hquote hbreak hend ih =>
      rw [List.cons_append, quoted, ih hsilent] <;> assumption

theorem Reader.extend {first : Char} {reader : Nat → List Char → Step}
    (hreader : Reader first reader) (hsilent : (reader line rest).errors = []) :
    reader line (rest ++ '\n' :: after) = (reader line rest).extend ('\n' :: after) := by
  cases hreader with
  | lineEnd => rfl
  | lineBreak => rfl
  | comment => exact comment_extend line rest after
  | quoted => exact quoted_extend line rest ('\n' :: after) hsilent
  | character => exact character_extend line rest after
  | bracket => exact bracket_extend line rest after hsilent
  | blanks => exact blanks_extend line rest after first
  | number => exact number_extend line rest after first
  | word => exact word_extend line rest after first
  | symbol => exact symbol_extend line rest after first

end Extend

/-- The pieces of the first source, the line end, and the pieces of the second source on the lines
after it. -/
theorem pieces_append_lineEnd {line : Nat} {front : List Char}
    (hsilent : (pieces line front).1.filterMap Piece.error? = []) (back : List Char) :
    pieces line (front ++ '\n' :: back) =
      ((pieces line front).1 ++
          .skipped ['\n'] :: (pieces ((pieces line front).2 + 1) back).1,
        (pieces ((pieces line front).2 + 1) back).2) := by
  fun_induction pieces line front with
  | case1 line =>
      have hstep : step line '\n' back = ⟨[.skipped ['\n']], line + 1, back⟩ := rfl
      rw [List.nil_append, pieces, hstep]
      rfl
  | case2 line first rest found others ih =>
      rw [List.filterMap_append, List.append_eq_nil_iff] at hsilent
      have hstep : step line first (rest ++ '\n' :: back) = found.extend ('\n' :: back) :=
        (reader_step first).extend line rest back hsilent.1
      rw [List.cons_append, pieces, hstep, Step.extend, ih hsilent.2, List.append_assoc]

end Source

/-- A source that is scanned without an error, a line end and any other source are scanned to the
tokens of the first and then the tokens of the second, and all errors are errors of the second. Its
lines come after the line on which the first one ends. -/
theorem scan_append_line {front : String} (haccepted : (scan front).errors = []) (back : String) :
    ∃ used last, (scan front).tokens = used ++ [last] ∧ last.kind = .endOfInput ∧
      (scan (front ++ "\n" ++ back)).tokens =
        used ++ (scan back).tokens.map (Token.shift last.line) ∧
      (scan (front ++ "\n" ++ back)).errors =
        (scan back).errors.map (Located.shift last.line) := by
  have hsource : (front ++ "\n" ++ back).toList = front.toList ++ '\n' :: back.toList := by
    simp
  have hback : Source.pieces ((scan front).lastLine + 1) back.toList =
      ((scan back).pieces.map (Piece.shift (scan front).lastLine),
        (scan back).lastLine + (scan front).lastLine) := by
    rw [Nat.add_comm]
    exact Source.pieces_shift 1 (scan front).lastLine back.toList
  have hscan : scan (front ++ "\n" ++ back) =
      ⟨(scan front).pieces ++
          .skipped ['\n'] :: (scan back).pieces.map (Piece.shift (scan front).lastLine),
        (scan back).lastLine + (scan front).lastLine⟩ := by
    rw [scan, hsource, Source.pieces_append_lineEnd haccepted]
    exact congrArg (fun found : List Piece × Nat =>
      Scan.mk ((scan front).pieces ++ .skipped ['\n'] :: found.1) found.2) hback
  refine ⟨(scan front).pieces.filterMap Piece.token?, _, rfl, rfl, ?_, ?_⟩
  · rw [hscan, Scan.tokens, List.filterMap_append, List.filterMap_cons_none rfl,
      Piece.filterMap_shift (Piece.token?_shift _), List.append_assoc, Scan.tokens, List.map_append]
    rfl
  · rw [hscan, Scan.errors, List.filterMap_append, List.filterMap_cons_none rfl,
      Piece.filterMap_shift (Piece.error?_shift _)]
    exact congrArg (· ++ _) haccepted

/-- A literal with a symbol in it and a comment, then an escape that swallows a line end and a
literal that is left open. -/
theorem scan_append_line_open :
    (scan "\"a$b\" # [").errors = [] ∧
      (scan ("\"a$b\" # [" ++ "\n" ++ "[\n]x\n\"")).tokens =
        [⟨.text, "\"a", 1, some (.text "a")⟩, ⟨.lineBreak, "$", 1, none⟩,
          ⟨.text, "b\"", 2, some (.text "b")⟩, ⟨.identifier, "x", 3, none⟩,
          ⟨.endOfInput, "", 4, none⟩] ∧
      (scan ("\"a$b\" # [" ++ "\n" ++ "[\n]x\n\"")).errors =
        [⟨.invalidEscape "\n", 3⟩, ⟨.unterminatedString, 4⟩] := by
  have haccepted : (scan "\"a$b\" # [").errors = [] := by decide +kernel
  have hfront : (scan "\"a$b\" # [").tokens =
      [⟨.text, "\"a", 1, some (.text "a")⟩, ⟨.lineBreak, "$", 1, none⟩,
        ⟨.text, "b\"", 2, some (.text "b")⟩] ++ [⟨.endOfInput, "", 2, none⟩] := by decide +kernel
  have hback : (scan "[\n]x\n\"").tokens =
      [⟨.identifier, "x", 1, none⟩, ⟨.endOfInput, "", 2, none⟩] := by decide +kernel
  have hrejected : (scan "[\n]x\n\"").errors =
      [⟨.invalidEscape "\n", 1⟩, ⟨.unterminatedString, 2⟩] := by decide +kernel
  obtain ⟨used, last, htokens, -, hscanned, herrors⟩ := scan_append_line haccepted "[\n]x\n\""
  obtain ⟨rfl, hlast⟩ := List.append_inj' (hfront.symm.trans htokens) rfl
  obtain rfl := List.singleton_inj.mp hlast
  rw [hback] at hscanned
  rw [hrejected] at herrors
  exact ⟨haccepted, hscanned, herrors⟩

end BeginCode
