import BeginCode.Cursor
import BeginCode.Proofs.Lossless
import BeginCode.Proofs.TokenShapes

/-!
# Line numbers

The line of a token is one more than the line ends in the source before it and the line-break
symbols among the tokens before it. `Source.Numbered` gives each piece the line to which the pieces
before it lead, and each step of the scanner numbers its pieces so.

A line end that is rejected together with brackets around it is the only one that is not counted.
What comes after it, up to the end of input, has a line too low by one. Sources without an error
have no such line end, and their tokens' lines are exact. There the two line numbers tell whether
the token after a line-break symbol stands on the symbol's line.
-/

namespace BeginCode

def Token.isLineBreak (token : Token) : Bool := token.kind = .lineBreak

namespace Token

theorem Denotes.eq_of_lineBreak {kind : Kind} {text : List Char} {literal : Option Value}
    (hdenotes : Denotes kind text literal) (hkind : kind = .lineBreak) : text = ['$'] := by
  have hfixedTexts : ∀ entry ∈ Kind.fixedTexts, entry.2 = .lineBreak →
      entry.1.toList = ['$'] := by decide
  cases hdenotes with
  | fixed hfixed _ => rw [← hfixedTexts _ hfixed hkind, String.toList_ofList]
  | identifier _ _ => cases hkind
  | integer _ _ => cases hkind
  | float _ => cases hkind
  | character _ _ => cases hkind
  | escape _ => cases hkind

theorem DenotesSegment.ne_lineBreak {opens closes : Bool} {kind : Kind} {text : List Char}
    {literal : Option Value} (hdenotes : DenotesSegment opens closes kind text literal) :
    kind ≠ .lineBreak := by
  cases hdenotes <;> decide

theorem WellFormed.toList_lineBreak {token : Token} (htoken : token.WellFormed)
    (hkind : token.kind = .lineBreak) : token.lexeme.toList = ['$'] := by
  rcases htoken with halone | ⟨opens, closes, hsegment⟩
  · exact halone.eq_of_lineBreak hkind
  · exact absurd hkind hsegment.ne_lineBreak

end Token

namespace Piece

/-- The piece is a line end in brackets, rejected as an escape. -/
def losesLine : Piece → Bool
  | .rejected text error => text = ['[', '\n', ']'] && error.cause = .invalidEscape "\n"
  | _ => false

theorem text_of_losesLine {piece : Piece} (hloses : piece.losesLine = true) :
    piece.text = ['[', '\n', ']'] := by
  cases piece with
  | token found => cases hloses
  | skipped text => cases hloses
  | rejected text error =>
      simp only [losesLine, Bool.and_eq_true, decide_eq_true_eq] at hloses
      exact hloses.1

/-- How far the line counter advances over the piece. -/
def lines (piece : Piece) : Nat :=
  if piece.losesLine then 0
  else piece.text.count '\n' + if piece.token?.any Token.isLineBreak then 1 else 0

/-- The lines of a piece are its line ends and its line break, but for the line end that is lost. -/
theorem lines_add (piece : Piece) :
    piece.lines + (if piece.losesLine then 1 else 0) =
      piece.text.count '\n' + ([piece].filterMap token?).countP Token.isLineBreak := by
  cases piece with
  | token found => cases hbreak : found.isLineBreak <;> simp [lines, losesLine, token?, hbreak]
  | skipped text => simp [lines, losesLine, token?]
  | rejected text error =>
      by_cases hloses : (rejected text error).losesLine = true
      · rw [lines, if_pos hloses, if_pos hloses, text_of_losesLine hloses]
        rfl
      · rw [lines, if_neg hloses, if_neg hloses]
        rfl

/-- The token or the error of a piece that begins on the given line is dated by that line. An open
text literal is dated by the line on which it ends. -/
def OnLine (line : Nat) : Piece → Prop
  | .token found => found.line = line
  | .skipped _ => True
  | .rejected text error =>
      error.line = if error.cause = .unterminatedString then line + text.count '\n' else line

end Piece

namespace Scan

/-- The pieces, closed by the end of input. -/
def closedPieces (scan : Scan) : List Piece :=
  scan.pieces ++ [.token { kind := .endOfInput, lexeme := "", line := scan.lastLine }]

theorem filterMap_closedPieces (scan : Scan) :
    scan.closedPieces.filterMap Piece.token? = scan.tokens :=
  List.filterMap_append

theorem flatMap_closedPieces (source : String) :
    (scan source).closedPieces.flatMap Piece.text = source.toList := by
  have hcut := Source.cut_pieces none 1 source.toList
  rw [closedPieces, List.flatMap_append, hcut.flatMap_text]
  rfl

end Scan

namespace Source

open Token (Kind)

/-- The pieces lead from one line to another, and each is on the line to which those before it
lead. -/
inductive Numbered : Nat → List Piece → Nat → Prop where
  | nil {line : Nat} : Numbered line [] line
  | cons {line last : Nat} {piece : Piece} {others : List Piece} (hon : piece.OnLine line)
      (hothers : Numbered (line + piece.lines) others last) : Numbered line (piece :: others) last

namespace Numbered

variable {line middle last : Nat} {piece : Piece} {front back pieces : List Piece}

theorem one (hon : piece.OnLine line) (hlast : last = line + piece.lines) :
    Numbered line [piece] last :=
  .cons hon (hlast ▸ .nil)

theorem append (hfront : Numbered line front middle) (hback : Numbered middle back last) :
    Numbered line (front ++ back) last := by
  induction hfront with
  | nil => exact hback
  | cons hon _ ih => exact .cons hon (ih hback)

theorem exists_middle (hpieces : Numbered line (front ++ back) last) :
    ∃ middle, Numbered line front middle ∧ Numbered middle back last := by
  induction front generalizing line with
  | nil => exact ⟨line, .nil, hpieces⟩
  | cons piece front ih =>
      cases hpieces with
      | cons hon hothers =>
          obtain ⟨middle, hfront, hback⟩ := ih hothers
          exact ⟨middle, .cons hon hfront, hback⟩

/-- The lines that are lost make up for the difference between the last line and what is
counted. -/
theorem last_add (hpieces : Numbered line pieces last) :
    last + pieces.countP Piece.losesLine =
      line + (pieces.flatMap Piece.text).count '\n' +
        (pieces.filterMap Piece.token?).countP Token.isLineBreak := by
  induction hpieces with
  | nil => rfl
  | @cons line last piece others hon hothers ih =>
      have hpiece := piece.lines_add
      rw [List.countP_cons, List.flatMap_cons, List.count_append, ← List.singleton_append,
        List.filterMap_append, List.countP_append]
      omega

/-- The line of each piece, found by counting in what is before it. -/
theorem onLine (hpieces : Numbered line (front ++ piece :: back) last) :
    ∃ middle, middle + front.countP Piece.losesLine =
        line + (front.flatMap Piece.text).count '\n' +
          (front.filterMap Piece.token?).countP Token.isLineBreak ∧
      piece.OnLine middle := by
  obtain ⟨middle, hfront, hback⟩ := hpieces.exists_middle
  cases hback with
  | cons hon _ => exact ⟨middle, hfront.last_add, hon⟩

end Numbered

/-! ### Pieces of steps -/

section Step

variable {line start last : Nat} {kind : Kind} {source text rest : List Char}

theorem numbered_plain (hline : '\n' ∉ text)
    (hlast : last = line + if kind = .lineBreak then 1 else 0) :
    Numbered line [.plain kind text line] last := by
  refine .one rfl (hlast.trans ?_)
  simp [Piece.plain, Piece.lines, Piece.losesLine, Piece.text, Piece.token?, Token.isLineBreak,
    List.count_eq_zero_of_not_mem hline]

/-- A literal can have line ends in its text. -/
theorem numbered_literal {value : Value} (hkind : kind ≠ .lineBreak)
    (hlast : last = line + text.count '\n') :
    Numbered line [.literal kind text line value] last := by
  refine .one rfl (hlast.trans ?_)
  simp [Piece.literal, Piece.lines, Piece.losesLine, Piece.text, Piece.token?, Token.isLineBreak,
    hkind]

theorem numbered_oneLine {value : Value} (hkind : kind ≠ .lineBreak) (hline : '\n' ∉ text) :
    Numbered line [.literal kind text line value] line :=
  numbered_literal hkind (by rw [List.count_eq_zero_of_not_mem hline, Nat.add_zero])

theorem numbered_skipped (hlast : last = line + text.count '\n') :
    Numbered line [.skipped text] last := .one trivial hlast

theorem numbered_reject {cause : LexicalCause} (hline : '\n' ∉ text)
    (hcause : cause ≠ .unterminatedString) : Numbered line [.reject text cause line] line := by
  refine .one (if_neg hcause).symm ?_
  simp [Piece.lines, Piece.reject, Piece.text, Piece.token?, List.count_eq_zero_of_not_mem hline]

theorem numbered_character :
    Numbered line (character line rest).pieces (character line rest).line := by
  have hline : '\n' ∉ rest.takeWhile fun c => c ≠ '\'' && c ≠ '\n' := by
    intro hmem
    simpa using List.mem_takeWhile_imp hmem
  unfold character
  dsimp only
  generalize (rest.takeWhile fun c => c ≠ '\'' && c ≠ '\n') = content at hline ⊢
  have htext : '\n' ∉ '\'' :: content ++ ['\''] := by simpa using hline
  split
  · split
    · exact numbered_oneLine (by decide) htext
    · exact numbered_reject htext (by decide)
  · exact numbered_reject (by simpa using hline) (by decide)

theorem numbered_bracket : Numbered line (bracket line rest).pieces (bracket line rest).line := by
  have hescapable : '\n' ∉ Token.escapable := by decide
  unfold bracket
  split
  · rename_i c after
    by_cases hline : c = '\n'
    · -- the line end is not counted
      subst hline
      rw [if_neg hescapable]
      exact .one rfl rfl
    · have htext : '\n' ∉ ['[', c, ']'] := by simp [Ne.symm hline]
      split
      · exact numbered_oneLine (by decide) htext
      · exact numbered_reject htext (by simp)
  · exact numbered_reject (by decide) (by simp)
  · exact numbered_reject (by decide) (by simp)

theorem numbered_lastSegment {lead content : List Char} (hlead : '\n' ∉ lead)
    (hline : line = start + content.count '\n') :
    Numbered start [lastSegment lead content start] line := by
  have hcount : line = start + (lead ++ content ++ ['"']).count '\n' := by
    simp [hline, List.count_eq_zero_of_not_mem hlead]
  unfold lastSegment
  dsimp only
  split
  · exact numbered_literal (by decide) hcount
  split
  · exact numbered_literal (by decide) hcount
  · exact numbered_literal (by decide) hcount

theorem numbered_segment {lead content : List Char} (hlead : '\n' ∉ lead)
    (hline : line = start + content.count '\n') :
    Numbered start (segment lead content start) line := by
  unfold segment
  split
  · rename_i hempty
    have hcontent : content = [] := by simp_all
    rw [hline, hcontent]
    exact .nil
  · refine numbered_literal (by decide) ?_
    rw [hline, List.count_append, List.count_eq_zero_of_not_mem hlead, Nat.zero_add]

/-- While a text literal is read, the line counter is ahead of the line of the open segment by the
line ends in that segment. -/
theorem numbered_quoted {lead content : List Char} (hlead : '\n' ∉ lead)
    (hline : line = start + content.count '\n') (rest : List Char) :
    Numbered start (quoted lead content start line rest).pieces
      (quoted lead content start line rest).line := by
  fun_induction quoted lead content start line rest with
  | case1 lead content start line =>
      have hcount : line = start + (lead ++ content.reverse).count '\n' := by
        simp [hline, List.count_eq_zero_of_not_mem hlead]
      exact .one hcount (by simp [hcount, Piece.reject, Piece.lines, Piece.losesLine, Piece.text,
        Piece.token?])
  | case2 lead content start line rest =>
      exact numbered_lastSegment hlead (by rw [List.count_reverse, hline])
  | case3 lead content start line rest ih =>
      have hsegment := numbered_segment hlead
        (show line = start + content.reverse.count '\n' by rw [List.count_reverse, hline])
      have hbreak : Numbered line [.plain .lineBreak ['$'] line] (line + 1) :=
        numbered_plain (by decide) rfl
      exact (hsegment.append hbreak).append (ih (by decide) rfl)
  | case4 lead content start line rest ih =>
      exact ih hlead (by rw [List.count_cons_self, hline, Nat.add_assoc])
  | case5 lead content start line c rest hquote hbreak hend ih =>
      exact ih hlead (by rw [List.count_cons_of_ne hend, hline])

/-- Of the texts that a pattern matches, only the line end itself has one. -/
theorem count_lineEnd (hmatches : kind.Matches text) :
    text.count '\n' = if kind = .newLine then 1 else 0 := by
  have hclasses : Number.isDigit '\n' = false ∧ Token.startsWord '\n' = false ∧
      Token.continuesWord '\n' = false ∧ Token.separates '\n' = false := by decide
  obtain ⟨hdigit, hstarts, hcontinues, hseparates⟩ := hclasses
  have hrun {p : Char → Bool} {run : List Char} (hend : p '\n' = false)
      (hall : ∀ c ∈ run, p c = true) : run.count '\n' = 0 :=
    List.count_eq_zero_of_not_mem fun hmem => by simp [hall _ hmem] at hend
  have hdigits {run : List Char} (hmem : run ∈ Pattern.digits.language) : run.count '\n' = 0 :=
    hrun hdigit (Pattern.mem_digits.mp hmem).2
  rcases matches_iff.mp hmatches with hfixed | ⟨pattern, hpattern, htext⟩
  · have hall : ∀ entry ∈ Kind.fixedTexts,
        entry.1.toList.count '\n' = if entry.2 = .newLine then 1 else 0 := by decide
    rw [← hall _ hfixed, String.toList_ofList]
  · simp only [Kind.expressions, List.mem_cons, List.not_mem_nil, or_false, Prod.mk.injEq]
      at hpattern
    rcases hpattern with ⟨rfl, rfl⟩ | ⟨rfl, rfl⟩ | ⟨rfl, rfl⟩ | ⟨rfl, rfl⟩ | ⟨rfl, rfl⟩
    · obtain ⟨whole, hwhole, fraction, hfraction, rfl⟩ := Pattern.mem_decimal.mp htext
      rw [List.count_append, hdigits hwhole, List.count_cons_of_ne (by decide), hdigits hfraction]
      rfl
    · exact hdigits htext
    · obtain ⟨first, others, hfirst, hothers, rfl⟩ := Pattern.mem_name.mp htext
      have hne : first ≠ '\n' := by
        rintro rfl
        exact absurd hfirst (by rw [hstarts]; decide)
      rw [List.count_cons_of_ne hne, hrun hcontinues hothers]
      rfl
    · obtain ⟨others, hline, rfl⟩ := Pattern.mem_remark.mp htext
      rw [List.count_cons_of_ne (by decide), List.count_eq_zero_of_not_mem hline]
      rfl
    · exact hrun hseparates (Pattern.mem_blanks.mp htext).2

theorem numbered_runPiece (hline : '\n' ∉ text) : Numbered line [runPiece text line] line := by
  unfold runPiece
  split
  · exact numbered_oneLine (by decide) hline
  · exact numbered_reject hline (by simp)

theorem numbered_taken (hlongest : Longest source kind text rest) :
    Numbered line (taken line kind text rest).pieces (taken line kind text rest).line := by
  have hcount := count_lineEnd hlongest.matched
  by_cases hend : kind = .newLine
  · subst hend
    exact numbered_skipped (congrArg (line + ·) hcount.symm)
  have hline : '\n' ∉ text := by rw [← List.count_eq_zero, hcount, if_neg hend]
  by_cases hplain : isPlain kind = true
  · rw [taken_of_isPlain hplain]
    have hbreak : kind ≠ .lineBreak := by
      rintro rfl
      cases hplain
    exact numbered_plain hline (by rw [if_neg hbreak, Nat.add_zero])
  · cases kind with
    | newLine => exact absurd rfl hend
    | comment => exact numbered_skipped (congrArg (line + ·) hcount.symm)
    | ignored => exact numbered_skipped (congrArg (line + ·) hcount.symm)
    | lineBreak => exact numbered_plain hline rfl
    | doubleQuote => exact numbered_quoted hline rfl rest
    | apostrophe => exact numbered_character
    | leftBracket => exact numbered_bracket
    | integer => exact numbered_runPiece hline
    | float => exact numbered_oneLine (by decide) hline
    | _ => exact absurd rfl hplain

theorem numbered_step (line : Nat) (first : Char) (rest : List Char) :
    Numbered line (step line first rest).pieces (step line first rest).line := by
  have hstep := recognised_step line first rest
  generalize step line first rest = found at hstep
  cases hstep with
  | matched hlongest => exact numbered_taken hlongest
  | stray hnone =>
      have hline : first ≠ '\n' := by
        rintro rfl
        exact hnone .newLine ['\n'] (by decide) (List.prefix_append ['\n'] rest)
          (matches_iff.mpr (.inl (by decide)))
      exact numbered_reject (by simpa using Ne.symm hline) (by simp)

end Step

theorem numbered_pieces (line : Nat) (source : List Char) :
    Numbered line (pieces line source).1 (pieces line source).2 := by
  fun_induction pieces line source with
  | case1 line => exact .nil
  | case2 line first rest found after ih => exact (numbered_step line first rest).append ih

end Source

namespace Scan

theorem numbered_closedPieces (source : String) :
    Source.Numbered 1 (scan source).closedPieces (scan source).lastLine :=
  (Source.numbered_pieces 1 source.toList).append (.one rfl rfl)

/-- Without errors no line is lost. -/
theorem countP_losesLine {source : String} (haccepted : (scan source).errors = [])
    {front back : List Piece} (hsplit : (scan source).closedPieces = front ++ back) :
    front.countP Piece.losesLine = 0 := by
  rw [List.countP_eq_zero]
  intro piece hmem hloses
  have hpiece : piece ∈ (scan source).closedPieces := hsplit ▸ List.mem_append_left back hmem
  rcases List.mem_append.mp hpiece with hpiece | hpiece
  · cases piece with
    | token found => cases hloses
    | skipped text => cases hloses
    | rejected text error =>
        have herror : error ∈ (scan source).errors :=
          List.mem_filterMap.mpr ⟨_, hpiece, rfl⟩
        rw [haccepted] at herror
        cases herror
  · rw [List.mem_singleton.mp hpiece] at hloses
    cases hloses

theorem line_eq {source : String} (haccepted : (scan source).errors = []) {token : Token}
    {front back : List Piece}
    (hsplit : (scan source).closedPieces = front ++ .token token :: back) :
    token.line = 1 + (front.flatMap Piece.text).count '\n' +
      (front.filterMap Piece.token?).countP Token.isLineBreak := by
  have hpieces := numbered_closedPieces source
  rw [hsplit] at hpieces
  obtain ⟨line, hline, hon⟩ := hpieces.onLine
  rw [countP_losesLine haccepted hsplit, Nat.add_zero] at hline
  rw [← hline]
  exact hon

theorem toList_lineBreak {source : String} {symbol : Token} {front back : List Piece}
    (hsplit : (scan source).closedPieces = front ++ .token symbol :: back)
    (hkind : symbol.kind = .lineBreak) : symbol.lexeme.toList = ['$'] := by
  have hpiece : .token symbol ∈ (scan source).closedPieces := by
    rw [hsplit]
    exact List.mem_append_right front List.mem_cons_self
  rcases List.mem_append.mp hpiece with hpiece | hpiece
  · exact (wellFormed_of_mem (List.mem_filterMap.mpr ⟨_, hpiece, rfl⟩)).toList_lineBreak hkind
  · cases List.mem_singleton.mp hpiece
    cases hkind

/-- Between a line-break symbol and the token after it, only line ends count. -/
theorem next_line_le_iff {source : String} (haccepted : (scan source).errors = [])
    {symbol next : Token} {before gap after : List Piece}
    (hsplit : (scan source).closedPieces = before ++ .token symbol :: (gap ++ .token next :: after))
    (hkind : symbol.kind = .lineBreak) (hgap : gap.filterMap Piece.token? = []) :
    next.line ≤ symbol.line + 1 ↔ '\n' ∉ gap.flatMap Piece.text := by
  have hsymbol := line_eq haccepted hsplit
  have hnext : (scan source).closedPieces =
      (before ++ .token symbol :: gap) ++ .token next :: after := by
    rw [hsplit, List.append_assoc, List.cons_append]
  have hlexeme : (Piece.token symbol).text.count '\n' = 0 := by
    rw [Piece.text, toList_lineBreak hsplit hkind]
    decide
  have htokens : (before ++ .token symbol :: gap).filterMap Piece.token? =
      before.filterMap Piece.token? ++ [symbol] := by
    simp [Piece.token?, hgap]
  have hbreak : symbol.isLineBreak = true := decide_eq_true hkind
  have hline := line_eq haccepted hnext
  rw [List.flatMap_append, List.flatMap_cons, List.count_append, List.count_append, hlexeme,
    htokens, List.countP_append, List.countP_cons_of_pos hbreak, List.countP_nil] at hline
  rw [← List.count_eq_zero]
  omega

end Scan

/-- In a source without errors the pieces cover the source and have its tokens, and each token's
line is found by counting in the source and among the tokens before it. The token after a line-break
symbol has the next line number at most if it stands on the same line of the source, which is what
an operand of the symbol has to do. -/
theorem scan_line_eq {source : String} (haccepted : (scan source).errors = []) :
    (scan source).closedPieces.flatMap Piece.text = source.toList ∧
      (scan source).closedPieces.filterMap Piece.token? = (scan source).tokens ∧
      (∀ before token after, (scan source).closedPieces = before ++ .token token :: after →
        token.line = 1 + (before.flatMap Piece.text).count '\n' +
          (before.filterMap Piece.token?).countP Token.isLineBreak) ∧
      ∀ before symbol gap next after,
        (scan source).closedPieces = before ++ .token symbol :: (gap ++ .token next :: after) →
          symbol.kind = .lineBreak → gap.filterMap Piece.token? = [] →
            (next.line ≤ symbol.line + 1 ↔ '\n' ∉ gap.flatMap Piece.text) ∧
              ∀ cursor : Cursor, cursor.head = next →
                cursor.seesOperand symbol =
                  (decide ('\n' ∉ gap.flatMap Piece.text) && next.kind.beginsOperand) := by
  refine ⟨Scan.flatMap_closedPieces source, Scan.filterMap_closedPieces _, ?_, ?_⟩
  · intro before token after hsplit
    exact Scan.line_eq haccepted hsplit
  · intro before symbol gap next after hsplit hkind hgap
    have hline := Scan.next_line_le_iff haccepted hsplit hkind hgap
    refine ⟨hline, ?_⟩
    rintro cursor rfl
    rw [Cursor.seesOperand, decide_eq_decide.mpr hline]

/-- Line ends and symbols inside literals, a symbol in a comment, in a character literal and in an
escape, and a symbol whose line ends before the next token. -/
theorem scan_line_eq_apart :
    (scan "\"a\n$b\" # $\n$ '$' [$] $\nx").errors = [] ∧
      ∃ before after, (scan "\"a\n$b\" # $\n$ '$' [$] $\nx").closedPieces =
          before ++ .token ⟨.lineBreak, "$", 5, none⟩ ::
            ([.skipped ['\n']] ++ .token ⟨.identifier, "x", 7, none⟩ :: after) ∧
        5 = 1 + (before.flatMap Piece.text).count '\n' +
          (before.filterMap Piece.token?).countP Token.isLineBreak ∧
        ∀ cursor : Cursor, cursor.head = ⟨.identifier, "x", 7, none⟩ →
          cursor.seesOperand ⟨.lineBreak, "$", 5, none⟩ = false := by
  have haccepted : (scan "\"a\n$b\" # $\n$ '$' [$] $\nx").errors = [] := by decide +kernel
  have hsplit : (scan "\"a\n$b\" # $\n$ '$' [$] $\nx").closedPieces =
      (scan "\"a\n$b\" # $\n$ '$' [$] $\nx").pieces.take 12 ++
        .token ⟨.lineBreak, "$", 5, none⟩ :: ([.skipped ['\n']] ++
          .token ⟨.identifier, "x", 7, none⟩ :: [.token ⟨.endOfInput, "", 7, none⟩]) := by
    decide +kernel
  obtain ⟨-, -, hlines, hbreaks⟩ := scan_line_eq haccepted
  refine ⟨haccepted, _, _, hsplit, hlines _ _ _ hsplit, fun cursor hhead => ?_⟩
  exact (hbreaks _ _ _ _ _ hsplit rfl rfl).2 cursor hhead

/-- The last line is found by counting in the whole source, except that a line end in brackets is
rejected with them and not counted. The same holds of every token and every error, with what is
before it. -/
theorem scan_lastLine_add (source : String) :
    (∃ front last, (scan source).tokens = front ++ [last] ∧ last.kind = .endOfInput ∧
        last.line + (scan source).pieces.countP Piece.losesLine =
          1 + source.toList.count '\n' + (scan source).tokens.countP Token.isLineBreak) ∧
      (¬['[', '\n', ']'] <:+: source.toList → (scan source).pieces.countP Piece.losesLine = 0) ∧
      ∀ before piece after, (scan source).closedPieces = before ++ piece :: after →
        ∃ line, piece.OnLine line ∧
          line + before.countP Piece.losesLine =
            1 + (before.flatMap Piece.text).count '\n' +
              (before.filterMap Piece.token?).countP Token.isLineBreak := by
  have hpieces := Scan.numbered_closedPieces source
  refine ⟨⟨_, _, rfl, rfl, ?_⟩, ?_, ?_⟩
  · have hlast := hpieces.last_add
    rwa [Scan.flatMap_closedPieces, Scan.filterMap_closedPieces, Scan.closedPieces,
      List.countP_append] at hlast
  · intro hnone
    refine List.countP_eq_zero.mpr fun piece hmem hloses => hnone ?_
    rw [← Piece.text_of_losesLine hloses, ← Scan.flatMap_closedPieces]
    exact List.infix_of_mem_flatten (List.mem_map_of_mem (List.mem_append_left _ hmem))
  · intro before piece after hsplit
    rw [hsplit] at hpieces
    obtain ⟨line, hline, hon⟩ := hpieces.onLine
    exact ⟨line, hon, hline⟩

/-- After a line end in brackets the end of input and a stray character are one line too early. -/
theorem scan_lastLine_uncounted :
    ¬∀ source : String, ∃ front last, (scan source).tokens = front ++ [last] ∧
      last.kind = .endOfInput ∧
      last.line = 1 + source.toList.count '\n' + (scan source).tokens.countP Token.isLineBreak := by
  intro hall
  obtain ⟨front, last, htokens, -, hline⟩ := hall "[\n]@"
  have hscan : (scan "[\n]@").tokens = [] ++ [⟨.endOfInput, "", 1, none⟩] := by decide +kernel
  obtain ⟨-, hlast⟩ := List.append_inj' (hscan.symm.trans htokens) rfl
  rw [← List.singleton_inj.mp hlast, hscan] at hline
  exact absurd hline (by decide)

end BeginCode
