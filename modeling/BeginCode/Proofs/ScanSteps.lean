import BeginCode.Source.Scan

/-!
# Steps of the scanner

The first character of a source alone decides how it is read on: `Source.Reader` lists the ways.
What holds of all of them holds of every step, and then of all pieces of a source. No piece is the
end of input, so that it is only found at the end.
-/

namespace BeginCode

open BeginCode.Token (Kind)

namespace Source

/-- The ways of reading on from a first character, by the line and the source after it. -/
inductive Reader (first : Char) : (Nat → List Char → Step) → Prop where
  | lineEnd : Reader first fun line rest => ⟨[.skipped ['\n']], line + 1, rest⟩
  | lineBreak : Reader first fun line rest => ⟨[.plain .lineBreak ['$'] line], line + 1, rest⟩
  | comment : Reader first comment
  | quoted : Reader first fun line rest => quoted ['"'] [] line line rest
  | character : Reader first character
  | bracket : Reader first bracket
  | blanks : Reader first fun line rest => blanks line first rest
  | number : Reader first fun line rest => number line first rest
  | word : Reader first fun line rest => word line first rest
  | symbol : Reader first fun line rest => symbol line first rest

theorem reader_step (first : Char) : Reader first fun line rest => step line first rest := by
  unfold step
  split
  · exact .lineEnd
  split
  · exact .lineBreak
  split
  · exact .comment
  split
  · exact .quoted
  split
  · exact .character
  split
  · exact .bracket
  split
  · exact .blanks
  split
  · exact .number
  split
  · exact .word
  · exact .symbol

end Source

/-! ### The end of input -/

/-- Not the end of input, which is no part of a source. -/
def Piece.isInner : Piece → Bool
  | .token found => found.kind != .endOfInput
  | _ => true

theorem Token.Kind.ofWord_eq_or_mem (word : String) :
    ofWord word = .identifier ∨ (word, ofWord word) ∈ keywords := by
  rw [ofWord]
  cases hlookup : keywords.lookup word with
  | none => exact .inl rfl
  | some kind =>
      obtain ⟨before, after, hsplit, -⟩ := List.lookup_eq_some_iff.mp hlookup
      rw [hsplit]
      exact .inr (List.mem_append_right before List.mem_cons_self)

theorem Token.Kind.ofWord_ne_endOfInput (word : String) : ofWord word ≠ .endOfInput := by
  have hkeywords : ∀ spelling ∈ keywords, spelling.2 ≠ .endOfInput := by decide
  rcases ofWord_eq_or_mem word with hword | hword
  · rw [hword]
    decide
  · exact hkeywords _ hword

theorem Token.Kind.ne_endOfInput_of_symbol {c : Char} {kind : Kind}
    (hkind : ofSymbol? c = some kind) : kind ≠ .endOfInput := by
  rintro rfl
  unfold ofSymbol? at hkind
  split at hkind <;> cases hkind

theorem Token.Kind.ne_endOfInput_of_pair {first second : Char} {kind : Kind}
    (hkind : ofPair? first second = some kind) : kind ≠ .endOfInput := by
  rintro rfl
  unfold ofPair? at hkind
  split at hkind <;> cases hkind

namespace Source

variable {line : Nat} {rest : List Char}

theorem isInner_plain {kind : Kind} (hkind : kind ≠ .endOfInput) (lexeme : List Char) :
    [Piece.plain kind lexeme line].all Piece.isInner = true := by
  have hinner : (Piece.plain kind lexeme line).isInner = true := bne_iff_ne.mpr hkind
  rw [List.all_cons, hinner]
  rfl

theorem isInner_number (first : Char) :
    (number line first rest).pieces.all Piece.isInner = true := by
  have hinteger (digits : List Char) : [integerPiece digits line].all Piece.isInner = true := by
    unfold integerPiece
    split <;> rfl
  simp only [number]
  split
  · split
    · exact hinteger _
    · rfl
  · exact hinteger _

theorem isInner_symbol (first : Char) :
    (symbol line first rest).pieces.all Piece.isInner = true := by
  have hsymbol : [symbolPiece first line].all Piece.isInner = true := by
    unfold symbolPiece
    split
    · rename_i kind hkind
      exact isInner_plain (Kind.ne_endOfInput_of_symbol hkind) _
    · rfl
  cases rest with
  | nil => exact hsymbol
  | cons second rest =>
      simp only [symbol]
      split
      · rename_i kind hkind
        exact isInner_plain (Kind.ne_endOfInput_of_pair hkind) _
      · exact hsymbol

theorem isInner_character : (character line rest).pieces.all Piece.isInner = true := by
  simp only [character]
  split
  · split <;> rfl
  · rfl

theorem isInner_bracket : (bracket line rest).pieces.all Piece.isInner = true := by
  unfold bracket
  split
  · split <;> rfl
  · rfl
  · rfl

theorem isInner_quoted (lead content : List Char) (start : Nat) :
    (quoted lead content start line rest).pieces.all Piece.isInner = true := by
  fun_induction quoted lead content start line rest with
  | case1 => rfl
  | case2 lead content start line rest =>
      simp only [lastSegment]
      split
      · rfl
      · split <;> rfl
  | case3 lead content start line rest ih =>
      have hsegment : (segment lead content.reverse start).all Piece.isInner = true := by
        unfold segment
        split <;> rfl
      simp only [Step.prepend, List.all_append, ih, hsegment]
      rfl
  | case4 lead content start line rest ih => exact ih
  | case5 lead content start line c rest _ _ _ ih => exact ih

theorem Reader.isInner {first : Char} {reader : Nat → List Char → Step}
    (hreader : Reader first reader) (line : Nat) (rest : List Char) :
    (reader line rest).pieces.all Piece.isInner = true := by
  cases hreader with
  | lineEnd => rfl
  | lineBreak => rfl
  | comment => rfl
  | quoted => exact isInner_quoted _ _ _
  | character => exact isInner_character
  | bracket => exact isInner_bracket
  | blanks => rfl
  | number => exact isInner_number first
  | word => exact isInner_plain (Kind.ofWord_ne_endOfInput _) _
  | symbol => exact isInner_symbol first

theorem isInner_pieces (line : Nat) (source : List Char) :
    (pieces line source).1.all Piece.isInner = true := by
  fun_induction pieces line source with
  | case1 line => rfl
  | case2 line first rest found after ih =>
      have hfound : found.pieces.all Piece.isInner = true := (reader_step first).isInner line rest
      rw [List.all_append, hfound, ih]
      rfl

end Source

/-- The end of input is the last token of a scan and no other one. -/
theorem Scan.dropWhile_tokens (source : String) :
    ((scan source).tokens.dropWhile fun token => token.kind != .endOfInput) =
      [{ kind := .endOfInput, lexeme := "", line := (scan source).lastLine }] := by
  have hinner : ∀ token ∈ (scan source).pieces.filterMap Piece.token?,
      (token.kind != .endOfInput) = true := by
    intro token hmem
    obtain ⟨piece, hpiece, htoken⟩ := List.mem_filterMap.mp hmem
    have hall := List.all_eq_true.mp (Source.isInner_pieces 1 source.toList) piece hpiece
    cases piece with
    | token found =>
        obtain rfl : found = token := Option.some.inj htoken
        exact hall
    | skipped text => cases htoken
    | rejected text error => cases htoken
  rw [Scan.tokens, List.dropWhile_append_of_pos hinner]
  rfl

end BeginCode
