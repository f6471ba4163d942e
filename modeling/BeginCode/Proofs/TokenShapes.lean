import BeginCode.Expr.Reading
import BeginCode.Proofs.Integers
import BeginCode.Proofs.LongestMatch
import BeginCode.Proofs.Lossless
import BeginCode.Proofs.ScanLines
import BeginCode.Proofs.TextLiterals

/-!
# Shapes of tokens

Kind, text and literal of a scanned token agree. `Token.Denotes` says how for the tokens that are
written by themselves, and `Token.DenotesSegment` for the segments of a text literal, where it
depends on the place of the segment which quotes belong to it. The pieces of a source fall into
parts, which are single pieces and whole text literals, so that each segment has its place.
-/

namespace BeginCode

open BeginCode.Token (Kind)

/-! ### Texts of tokens -/

namespace Token

/-- The kinds that are recognised but never become tokens. -/
def Kind.isHidden : Kind → Bool
  | apostrophe | doubleQuote | leftBracket | comment | newLine | ignored => true
  | _ => false

/-- The kinds whose tokens stand for their literal alone. -/
def Kind.isDecoded : Kind → Bool
  | integer | float | charLiteral | text | escape => true
  | _ => false

/-- The kinds of the words for truth values. -/
def Kind.isTruth (kind : Kind) : Prop := kind = .kwTrue ∨ kind = .kwFalse

/-- A text that is a token of the kind by itself, and the literal that it denotes. -/
inductive Denotes : Kind → List Char → Option Value → Prop where
  | fixed {kind : Kind} {text : List Char} (hfixed : (String.ofList text, kind) ∈ Kind.fixedTexts)
      (hshown : kind.isHidden = false) : Denotes kind text none
  | identifier {text : List Char} (hname : text ∈ Pattern.name.language)
      (hkeyword : String.ofList text ∉ Kind.keywords.map Prod.fst) :
      Denotes .identifier text none
  | integer {digits : List Char} (hdigits : digits ∈ Pattern.digits.language)
      (hvalue : Number.ofDigits digits ≤ 2 ^ 63 - 1) :
      Denotes .integer digits (some (.integer (.ofNat (Number.ofDigits digits))))
  | float {text : List Char} (htext : text ∈ Pattern.decimal.language) :
      Denotes .float text (some (.float (Source.pointValue text)))
  | character {c : Char} (hquote : c ≠ '\'') (hline : c ≠ '\n') :
      Denotes .charLiteral ['\'', c, '\''] (some (.char c))
  | escape {c : Char} (hescapable : c ∈ escapable) :
      Denotes .escape ['[', c, ']'] (some (.char c))

/-- The quote at one end of a segment, if it belongs to it. -/
def quoteIf (present : Bool) : List Char := if present then ['"'] else []

/-- The text of a segment that may open and close its literal, and what it denotes. A segment that
closes the literal is a truth value if it is the word for one. -/
inductive DenotesSegment (opens closes : Bool) : Kind → List Char → Option Value → Prop where
  | text {content : List Char} (hinside : '"' ∉ content ∧ '$' ∉ content)
      (hword : closes = true → content ≠ "TRUE".toList ∧ content ≠ "FALSE".toList) :
      DenotesSegment opens closes .text (quoteIf opens ++ content ++ quoteIf closes)
        (some (.text (String.ofList content)))
  | kwTrue (hcloses : closes = true) :
      DenotesSegment opens closes .kwTrue (quoteIf opens ++ "TRUE".toList ++ quoteIf closes)
        (some (.bool true))
  | kwFalse (hcloses : closes = true) :
      DenotesSegment opens closes .kwFalse (quoteIf opens ++ "FALSE".toList ++ quoteIf closes)
        (some (.bool false))

/-- The token is written by itself. -/
def StandsAlone (token : Token) : Prop := Denotes token.kind token.lexeme.toList token.literal

/-- The token is a segment of a text literal. -/
def IsSegment (opens closes : Bool) (token : Token) : Prop :=
  DenotesSegment opens closes token.kind token.lexeme.toList token.literal

/-- Kind, text and literal agree. -/
def WellFormed (token : Token) : Prop :=
  token.StandsAlone ∨ ∃ opens closes, token.IsSegment opens closes

end Token

namespace Source

open BeginCode.Token (quoteIf)

/-- The pieces of a text literal from one of its segments on; `first` says that it is the first one,
which has the opening quote. The last one has the closing quote, or the literal is rejected
there. -/
inductive Segments : Bool → List Piece → Prop where
  | closed {first : Bool} {last : Token} (hlast : last.IsSegment first true) :
      Segments first [.token last]
  | broken {first : Bool} {segment symbol : Token} {others : List Piece}
      (hsegment : segment.IsSegment first false) (hkind : symbol.kind = .lineBreak)
      (hsymbol : symbol.StandsAlone) (hothers : Segments false others) :
      Segments first (.token segment :: .token symbol :: others)
  /-- Between two line-break symbols there may be no text, and then there is no segment. -/
  | empty {symbol : Token} {others : List Piece} (hkind : symbol.kind = .lineBreak)
      (hsymbol : symbol.StandsAlone) (hothers : Segments false others) :
      Segments false (.token symbol :: others)
  | unclosed {first : Bool} {content : List Char} (hinside : '"' ∉ content ∧ '$' ∉ content)
      (line : Nat) :
      Segments first [.reject (quoteIf first ++ content) .unterminatedString line]

/-- The causes of errors that are not about numbers or text literals. -/
def isOtherCause : LexicalCause → Bool
  | .invalidNumber _ | .unterminatedString => false
  | _ => true

/-- A part of a source: skipped text, a token by itself, a run of digits, rejected text, or a text
literal. -/
inductive Part : List Piece → Prop where
  | skipped (text : List Char) : Part [.skipped text]
  | token {found : Token} (hfound : found.StandsAlone) : Part [.token found]
  | run {digits : List Char} (hdigits : digits ∈ Pattern.digits.language) (line : Nat) :
      Part [runPiece digits line]
  | rejected (text : List Char) {cause : LexicalCause} (hcause : isOtherCause cause = true)
      (line : Nat) : Part [.reject text cause line]
  | literal {pieces : List Piece} (hsegments : Segments true pieces) : Part pieces

inductive Parts : List Piece → Prop where
  | nil : Parts []
  | cons {part others : List Piece} (hpart : Part part) (hothers : Parts others) :
      Parts (part ++ others)

/-! ### Parts of steps -/

theorem matches_iff {kind : Kind} {text : List Char} :
    kind.Matches text ↔ (String.ofList text, kind) ∈ Kind.fixedTexts ∨
      ∃ pattern, (pattern, kind) ∈ Kind.expressions ∧ text ∈ pattern.language := by
  constructor
  · rintro ⟨pattern, hpattern, htext⟩
    rcases List.mem_append.mp hpattern with hpattern | hpattern
    · obtain ⟨entry, hentry, heq⟩ := List.mem_map.mp hpattern
      cases heq
      rw [Pattern.mem_fixed] at htext
      exact .inl (by rwa [htext, String.ofList_toList])
    · exact .inr ⟨pattern, hpattern, htext⟩
  · rintro (hfixed | ⟨pattern, hpattern, htext⟩)
    · refine ⟨_, List.mem_append_left _ (List.mem_map_of_mem hfixed), ?_⟩
      exact Pattern.mem_fixed.mpr String.toList_ofList.symm
    · exact ⟨pattern, List.mem_append_right _ hpattern, htext⟩

/-- The text of a kind with a regular expression and no fixed text. -/
theorem mem_language_of_matches {kind : Kind} {pattern : Pattern} {text : List Char}
    (hfixed : ∀ entry ∈ Kind.fixedTexts, entry.2 ≠ kind)
    (hexpression : ∀ entry ∈ Kind.expressions, entry.2 = kind → entry.1 = pattern)
    (hmatches : kind.Matches text) : text ∈ pattern.language := by
  rcases matches_iff.mp hmatches with hentry | ⟨found, hfound, htext⟩
  · exact absurd rfl (hfixed _ hentry)
  · rwa [← hexpression _ hfound rfl]

/-- The text of a kind with one fixed text. -/
theorem eq_of_matches {kind : Kind} {spelling : String} {text : List Char}
    (hfixed : ∀ entry ∈ Kind.fixedTexts, entry.2 = kind → entry.1 = spelling)
    (hexpression : ∀ entry ∈ Kind.expressions, entry.2 ≠ kind) (hmatches : kind.Matches text) :
    text = spelling.toList := by
  rcases matches_iff.mp hmatches with hentry | ⟨pattern, hpattern, -⟩
  · rw [← hfixed _ hentry rfl, String.toList_ofList]
  · exact absurd rfl (hexpression _ hpattern)

section Step

variable {source text rest : List Char} {kind : Kind}

/-- A longest match of a kind without a literal is a token as it stands. -/
theorem denotes_of_longest (hlongest : Longest source kind text rest)
    (hshown : kind.isHidden = false) (hdecoded : kind.isDecoded = false) :
    Token.Denotes kind text none := by
  rcases matches_iff.mp hlongest.matched with hfixed | ⟨pattern, hpattern, htext⟩
  · exact .fixed hfixed hshown
  · simp only [Kind.expressions, List.mem_cons, List.not_mem_nil, or_false, Prod.mk.injEq]
      at hpattern
    rcases hpattern with ⟨-, rfl⟩ | ⟨-, rfl⟩ | ⟨rfl, rfl⟩ | ⟨-, rfl⟩ | ⟨-, rfl⟩
    · cases hdecoded
    · cases hdecoded
    · refine .identifier htext fun hmem => ?_
      obtain ⟨⟨spelling, other⟩, hkeyword, rfl⟩ := List.mem_map.mp hmem
      have hother : other.Matches text := matches_iff.mpr (.inl (Kind.keywords_subset _ hkeyword))
      have hnone : ∀ entry ∈ Kind.keywords, entry.2 ≠ .identifier := by decide
      exact hnone _ hkeyword ((hlongest.preferred hother).elim id id)
    · cases hshown
    · cases hshown

theorem part_plain (hdenotes : Token.Denotes kind text none) (line : Nat) :
    Part [.plain kind text line] := by
  refine .token ?_
  rwa [Token.StandsAlone, String.toList_ofList]

theorem part_literal {value : Value} (hdenotes : Token.Denotes kind text (some value))
    (line : Nat) : Part [.literal kind text line value] := by
  refine .token ?_
  rwa [Token.StandsAlone, String.toList_ofList]

theorem part_character (line : Nat) : Part (character line rest).pieces := by
  have hcontent : ∀ c ∈ rest.takeWhile (fun c => c ≠ '\'' && c ≠ '\n'), c ≠ '\'' ∧ c ≠ '\n' := by
    intro c hmem
    simpa using List.mem_takeWhile_imp hmem
  unfold character
  dsimp only
  split
  · split
    · rename_i c hone
      rw [hone] at hcontent ⊢
      obtain ⟨hquote, hline⟩ := hcontent c List.mem_cons_self
      exact part_literal (.character hquote hline) line
    · exact .rejected _ rfl line
  · exact .rejected _ rfl line

theorem part_bracket (line : Nat) : Part (bracket line rest).pieces := by
  unfold bracket
  split
  · split
    · rename_i hescapable
      exact part_literal (.escape hescapable) line
    · exact .rejected _ rfl line
  · exact .rejected _ rfl line
  · exact .rejected _ rfl line

/-! Text literals -/

theorem segments_lastSegment {first : Bool} {content : List Char}
    (hinside : '"' ∉ content ∧ '$' ∉ content) (line : Nat) :
    Segments first [lastSegment (quoteIf first) content line] := by
  have hclosed {kind : Kind} {value : Value} (hsegment : Token.DenotesSegment first true kind
      (quoteIf first ++ content ++ ['"']) (some value)) :
      Segments first [.literal kind (quoteIf first ++ content ++ ['"']) line value] := by
    refine .closed ?_
    rwa [Token.IsSegment, String.toList_ofList]
  unfold lastSegment
  by_cases htrue : content = "TRUE".toList
  · rw [if_pos htrue]
    exact hclosed (htrue ▸ .kwTrue rfl)
  by_cases hfalse : content = "FALSE".toList
  · rw [if_neg htrue, if_pos hfalse]
    exact hclosed (hfalse ▸ .kwFalse rfl)
  · rw [if_neg htrue, if_neg hfalse]
    exact hclosed (.text hinside fun _ => ⟨htrue, hfalse⟩)

theorem standsAlone_lineBreak (line : Nat) :
    Token.StandsAlone { kind := .lineBreak, lexeme := String.ofList ['$'], line } := by
  have hfixed : (String.ofList ['$'], Kind.lineBreak) ∈ Kind.fixedTexts := by decide
  rw [Token.StandsAlone, String.toList_ofList]
  exact .fixed hfixed rfl

/-- The open segment and a line-break symbol after it. -/
theorem segments_segment {first : Bool} {content : List Char} {others : List Piece}
    (hinside : '"' ∉ content ∧ '$' ∉ content) (start line : Nat)
    (hothers : Segments false others) :
    Segments first
      (segment (quoteIf first) content start ++ [.plain .lineBreak ['$'] line] ++ others) := by
  have hsymbol := standsAlone_lineBreak line
  unfold segment
  split
  · rename_i hnone
    cases first with
    | true => cases hnone
    | false => exact .empty rfl hsymbol hothers
  · refine .broken ?_ rfl hsymbol hothers
    have hsegment : Token.DenotesSegment first false .text (quoteIf first ++ content)
        (some (.text (String.ofList content))) := by
      rw [← List.append_nil (quoteIf first ++ content)]
      exact .text hinside (by simp)
    rwa [Token.IsSegment, String.toList_ofList]

/-- What is read of a text literal, from its open segment on. -/
theorem segments_quoted {first : Bool} {content : List Char}
    (hinside : '"' ∉ content ∧ '$' ∉ content) (start line : Nat) (text : List Char) :
    Segments first (quoted (quoteIf first) content start line text).pieces := by
  have hreverse {content : List Char} (hinside : '"' ∉ content ∧ '$' ∉ content) :
      '"' ∉ content.reverse ∧ '$' ∉ content.reverse := by
    rwa [List.mem_reverse, List.mem_reverse]
  induction text generalizing first content start line with
  | nil => exact .unclosed (hreverse hinside) line
  | cons c text ih =>
      by_cases hquote : c = '"'
      · subst hquote
        exact segments_lastSegment (hreverse hinside) start
      by_cases hbreak : c = '$'
      · subst hbreak
        have hothers : Segments false (quoted [] [] (line + 1) (line + 1) text).pieces :=
          ih (by simp) (line + 1) (line + 1)
        exact segments_segment (hreverse hinside) start line hothers
      · rw [quoted_other hquote hbreak]
        refine ih ⟨?_, ?_⟩ start _
        · exact List.not_mem_cons_of_ne_of_not_mem (Ne.symm hquote) hinside.1
        · exact List.not_mem_cons_of_ne_of_not_mem (Ne.symm hbreak) hinside.2

theorem part_taken (hlongest : Longest source kind text rest) (line : Nat) :
    Part (taken line kind text rest).pieces := by
  by_cases hplain : isPlain kind = true
  · have hpatterns : ∀ entry ∈ Kind.patterns, isPlain entry.2 = true →
        entry.2.isHidden = false ∧ entry.2.isDecoded = false := by decide
    obtain ⟨pattern, hpattern, -⟩ := hlongest.matched
    obtain ⟨hshown, hdecoded⟩ := hpatterns _ hpattern hplain
    rw [taken_of_isPlain hplain]
    exact part_plain (denotes_of_longest hlongest hshown hdecoded) line
  · cases kind with
    | newLine => exact .skipped text
    | comment => exact .skipped text
    | ignored => exact .skipped text
    | lineBreak => exact part_plain (denotes_of_longest hlongest rfl rfl) line
    | doubleQuote =>
        have htext : text = "\"".toList :=
          eq_of_matches (by decide) (by decide) hlongest.matched
        have hquote : "\"".toList = quoteIf true := by decide
        rw [htext, hquote]
        exact .literal (segments_quoted (by simp) line line rest)
    | apostrophe => exact part_character line
    | leftBracket => exact part_bracket line
    | integer =>
        have hdigits : text ∈ Pattern.digits.language :=
          mem_language_of_matches (by decide) (by decide) hlongest.matched
        exact .run hdigits line
    | float =>
        have htext : text ∈ Pattern.decimal.language :=
          mem_language_of_matches (by decide) (by decide) hlongest.matched
        exact part_literal (.float htext) line
    | _ => exact absurd rfl hplain

theorem part_step (line : Nat) (first : Char) (rest : List Char) :
    Part (step line first rest).pieces := by
  have hstep := recognised_step line first rest
  generalize step line first rest = found at hstep
  cases hstep with
  | matched hlongest => exact part_taken hlongest line
  | stray _ => exact .rejected _ rfl line

end Step

theorem parts_pieces (line : Nat) (source : List Char) : Parts (pieces line source).1 := by
  fun_induction pieces line source with
  | case1 line => exact .nil
  | case2 line first rest found after ih => exact .cons (part_step line first rest) ih

/-! ### Positions -/

/-- The positions at which a scan of the source takes its steps: the pieces that come before, the
line, and what is left of the source. -/
inductive Reaches (source : List Char) : List Piece → Nat → List Char → Prop where
  | start : Reaches source [] 1 source
  | next {before : List Piece} {line : Nat} {first : Char} {rest : List Char}
      (hreaches : Reaches source before line (first :: rest)) :
      Reaches source (before ++ (step line first rest).pieces) (step line first rest).line
        (step line first rest).rest

theorem Reaches.pieces_eq {source rest : List Char} {before : List Piece} {line : Nat}
    (hreaches : Reaches source before line rest) :
    (pieces 1 source).1 = before ++ (pieces line rest).1 := by
  induction hreaches with
  | start => rfl
  | next _ ih => rw [ih, pieces, List.append_assoc]

/-- A run of digits at a position is one piece. -/
theorem Reaches.exists_pieces_eq {source text digits after : List Char} {before : List Piece}
    {line : Nat} (hreaches : Reaches source before line text)
    (hlongest : Longest text .integer digits after) :
    ∃ later, (pieces 1 source).1 = before ++ runPiece digits line :: later := by
  have hfound : Recognised line text (taken line .integer digits after) := .matched hlongest
  obtain ⟨first, rest, rfl⟩ := hfound.exists_cons
  have hnext := hreaches.next.pieces_eq
  rw [step_eq_iff.mpr hfound, List.append_assoc] at hnext
  exact ⟨_, hnext⟩

theorem errors_eq_singleton_iff {piece : Piece} {line : Nat} {rest : List Char}
    {error : LexicalError} :
    (Step.mk [piece] line rest).errors = [error] ↔ piece.error? = some error := by
  cases piece <;> simp [Step.errors, Piece.error?, List.filterMap_cons]

theorem text_runPiece (digits : List Char) (line : Nat) : (runPiece digits line).text = digits := by
  unfold runPiece
  split
  · exact String.toList_ofList
  · rfl

theorem error?_runPiece_iff {digits : List Char} {line : Nat} :
    (runPiece digits line).error? = some ⟨.invalidNumber (String.ofList digits), line⟩ ↔
      2 ^ 63 - 1 < Number.ofDigits digits := by
  unfold runPiece
  by_cases hvalue : Number.ofDigits digits ≤ 2 ^ 63 - 1
  · rw [if_pos hvalue]
    exact iff_of_false (by simp [Piece.literal, Piece.error?]) (by omega)
  · rw [if_neg hvalue]
    exact iff_of_true rfl (by omega)

theorem token?_runPiece_iff {digits : List Char} {line : Nat} :
    (runPiece digits line).token? =
        some ⟨.integer, String.ofList digits, line,
          some (.integer (.ofNat (Number.ofDigits digits)))⟩ ↔
      Number.ofDigits digits ≤ 2 ^ 63 - 1 := by
  unfold runPiece
  by_cases hvalue : Number.ofDigits digits ≤ 2 ^ 63 - 1
  · rw [if_pos hvalue]
    exact iff_of_true rfl hvalue
  · rw [if_neg hvalue]
    exact iff_of_false (by simp [Piece.reject, Piece.token?]) hvalue

/-! ### Tokens of parts -/

theorem Segments.wellFormed {first : Bool} {pieces : List Piece} (hsegments : Segments first pieces)
    {token : Token} (hmem : .token token ∈ pieces) : token.WellFormed := by
  induction hsegments with
  | closed hlast =>
      cases List.mem_singleton.mp hmem
      exact .inr ⟨_, _, hlast⟩
  | broken hsegment _ hsymbol _ ih =>
      rcases List.mem_cons.mp hmem with heq | hmem
      · cases heq
        exact .inr ⟨_, _, hsegment⟩
      rcases List.mem_cons.mp hmem with heq | hmem
      · cases heq
        exact .inl hsymbol
      · exact ih hmem
  | empty _ hsymbol _ ih =>
      rcases List.mem_cons.mp hmem with heq | hmem
      · cases heq
        exact .inl hsymbol
      · exact ih hmem
  | unclosed _ line => cases List.mem_singleton.mp hmem

theorem Part.wellFormed {pieces : List Piece} (hpart : Part pieces) {token : Token}
    (hmem : .token token ∈ pieces) : token.WellFormed := by
  cases hpart with
  | skipped text => cases List.mem_singleton.mp hmem
  | token hfound =>
      cases List.mem_singleton.mp hmem
      exact .inl hfound
  | run hdigits line =>
      have hpiece := List.mem_singleton.mp hmem
      unfold runPiece at hpiece
      split at hpiece
      · rename_i hvalue
        cases hpiece
        refine .inl ?_
        rw [Token.StandsAlone, String.toList_ofList]
        exact .integer hdigits hvalue
      · cases hpiece
  | rejected text hcause line => cases List.mem_singleton.mp hmem
  | literal hsegments => exact hsegments.wellFormed hmem

theorem Parts.wellFormed {pieces : List Piece} (hparts : Parts pieces) {token : Token}
    (hmem : .token token ∈ pieces) : token.WellFormed := by
  induction hparts with
  | nil => cases hmem
  | cons hpart _ ih =>
      rcases List.mem_append.mp hmem with hmem | hmem
      · exact hpart.wellFormed hmem
      · exact ih hmem

end Source

theorem Scan.wellFormed_of_mem {source : String} {token : Token}
    (hmem : token ∈ (scan source).pieces.filterMap Piece.token?) : token.WellFormed := by
  obtain ⟨piece, hpiece, htoken⟩ := List.mem_filterMap.mp hmem
  cases piece with
  | token found =>
      obtain rfl : found = token := Option.some.inj htoken
      exact (Source.parts_pieces 1 source.toList).wellFormed hpiece
  | skipped text => cases htoken
  | rejected text error => cases htoken

namespace Token

variable {kind : Kind} {text : List Char} {literal : Option Value} {token : Token}

theorem Denotes.shown (hdenotes : Denotes kind text literal) :
    kind.isHidden = false ∧ kind ≠ .endOfInput := by
  have hfixedTexts : ∀ entry ∈ Kind.fixedTexts, entry.2 ≠ .endOfInput := by decide
  cases hdenotes with
  | fixed hfixed hshown => exact ⟨hshown, hfixedTexts _ hfixed⟩
  | identifier _ _ => decide
  | integer _ _ => decide
  | float _ => decide
  | character _ _ => decide
  | escape _ => decide

theorem DenotesSegment.shown {opens closes : Bool}
    (hdenotes : DenotesSegment opens closes kind text literal) :
    kind.isHidden = false ∧ kind ≠ .endOfInput ∧ literal.isSome = true := by
  cases hdenotes with
  | text _ _ => exact ⟨rfl, by decide, rfl⟩
  | kwTrue _ => exact ⟨rfl, by decide, rfl⟩
  | kwFalse _ => exact ⟨rfl, by decide, rfl⟩

theorem WellFormed.shown (htoken : token.WellFormed) :
    token.kind.isHidden = false ∧ token.kind ≠ .endOfInput := by
  rcases htoken with halone | ⟨opens, closes, hsegment⟩
  · exact halone.shown
  · exact ⟨hsegment.shown.1, hsegment.shown.2.1⟩

/-- Where the literal is all that counts, there is one. -/
theorem Denotes.isSome (hdenotes : Denotes kind text literal) (hdecoded : kind.isDecoded = true) :
    literal.isSome = true := by
  have hfixedTexts : ∀ entry ∈ Kind.fixedTexts, entry.2.isDecoded = false := by decide
  cases hdenotes with
  | fixed hfixed _ => exact absurd hdecoded (by rw [hfixedTexts _ hfixed]; decide)
  | identifier _ _ => cases hdecoded
  | integer _ _ => rfl
  | float _ => rfl
  | character _ _ => rfl
  | escape _ => rfl

theorem WellFormed.isSome (htoken : token.WellFormed) (hdecoded : token.kind.isDecoded = true) :
    token.literal.isSome = true := by
  rcases htoken with halone | ⟨opens, closes, hsegment⟩
  · exact halone.isSome hdecoded
  · exact hsegment.shown.2.2

theorem Denotes.eq_none_of_truth (hdenotes : Denotes kind text literal) (hkind : kind.isTruth) :
    literal = none := by
  cases hdenotes with
  | fixed _ _ => rfl
  | identifier _ _ => rfl
  | integer _ _ => exact absurd hkind (by simp [Kind.isTruth])
  | float _ => exact absurd hkind (by simp [Kind.isTruth])
  | character _ _ => exact absurd hkind (by simp [Kind.isTruth])
  | escape _ => exact absurd hkind (by simp [Kind.isTruth])

theorem DenotesSegment.closes_of_truth {opens closes : Bool}
    (hdenotes : DenotesSegment opens closes kind text literal) (hkind : kind.isTruth) :
    closes = true := by
  cases hdenotes with
  | text _ _ => exact absurd hkind (by simp [Kind.isTruth])
  | kwTrue hcloses => exact hcloses
  | kwFalse hcloses => exact hcloses

/-- A word for a truth value has a literal if it is quoted, as the last segment of its literal. -/
theorem WellFormed.isSome_truth_iff (htoken : token.WellFormed) (hkind : token.kind.isTruth) :
    token.literal.isSome = true ↔ ∃ opens, token.IsSegment opens true := by
  constructor
  · intro hsome
    rcases htoken with halone | ⟨opens, closes, hsegment⟩
    · rw [halone.eq_none_of_truth hkind] at hsome
      cases hsome
    · obtain rfl := hsegment.closes_of_truth hkind
      exact ⟨opens, hsegment⟩
  · rintro ⟨opens, hsegment⟩
    exact hsegment.shown.2.2

end Token

theorem Expr.run_operand_of_literal {cursor : Cursor} {value : Value}
    (hkind : cursor.head.kind.isDecoded = true) (hvalue : cursor.head.literal = some value)
    (inner : Reading Expr) :
    (operand inner).run cursor = .ok (.literal value cursor.head.line) cursor.advance := by
  rw [operand, EStateM.run_bind, Reading.run_head]
  dsimp only
  generalize cursor.head.kind = kind at hkind
  cases kind
  case integer | float | charLiteral | text | escape =>
    rw [hvalue]
    rfl
  all_goals cases hkind

/-- The end of input ends the tokens of a scan and is found only there. All others are of kinds that
are shown, and kind, text and literal agree by the part of the source that they belong to. A run of
digits, at any position of the scan, is one piece; it is rejected exactly if its value is too large,
and otherwise it is the token for its value. An operand that stands for its literal has one. -/
theorem scan_wellFormed (source : String) :
    (scan source).tokens = (scan source).pieces.filterMap Piece.token? ++
        [{ kind := .endOfInput, lexeme := "", line := (scan source).lastLine }] ∧
      Source.Parts (scan source).pieces ∧
      (∀ token ∈ (scan source).pieces.filterMap Piece.token?,
        token.kind ≠ .endOfInput ∧ token.kind.isHidden = false ∧ token.WellFormed ∧
          (token.kind.isTruth →
            (token.literal.isSome = true ↔ ∃ opens, token.IsSegment opens true))) ∧
      (∀ before line text digits after, Source.Reaches source.toList before line text →
        Source.Longest text .integer digits after →
          ∃ piece later, (scan source).pieces = before ++ piece :: later ∧ piece.text = digits ∧
            (piece.error? = some ⟨.invalidNumber (String.ofList digits), line⟩ ↔
              2 ^ 63 - 1 < Number.ofDigits digits) ∧
            (piece.token? = some ⟨.integer, String.ofList digits, line,
                some (.integer (.ofNat (Number.ofDigits digits)))⟩ ↔
              Number.ofDigits digits ≤ 2 ^ 63 - 1)) ∧
      (∀ line first rest digits after, Source.Longest (first :: rest) .integer digits after →
        ((Source.step line first rest).errors = [⟨.invalidNumber (String.ofList digits), line⟩] ↔
          2 ^ 63 - 1 < Number.ofDigits digits)) ∧
      ∀ (inner : Reading Expr) (cursor : Cursor), cursor.head ∈ (scan source).tokens →
        cursor.head.kind.isDecoded = true →
          ∃ value, cursor.head.literal = some value ∧
            (Expr.operand inner).run cursor =
              .ok (.literal value cursor.head.line) cursor.advance := by
  refine ⟨rfl, Source.parts_pieces 1 source.toList, fun token hmem => ?_, ?_, ?_, ?_⟩
  · have htoken := Scan.wellFormed_of_mem hmem
    exact ⟨htoken.shown.2, htoken.shown.1, htoken, htoken.isSome_truth_iff⟩
  · intro before line text digits after hreaches hlongest
    obtain ⟨later, hpieces⟩ := hreaches.exists_pieces_eq hlongest
    exact ⟨_, later, hpieces, Source.text_runPiece digits line, Source.error?_runPiece_iff,
      Source.token?_runPiece_iff⟩
  · intro line first rest digits after hlongest
    rw [Source.step_eq_iff.mpr (.matched hlongest)]
    exact Source.errors_eq_singleton_iff.trans Source.error?_runPiece_iff
  · intro inner cursor hmem hdecoded
    rcases List.mem_append.mp hmem with hmem | hmem
    · obtain ⟨value, hvalue⟩ := Option.isSome_iff_exists.mp
        ((Scan.wellFormed_of_mem hmem).isSome hdecoded)
      exact ⟨value, hvalue, Expr.run_operand_of_literal hdecoded hvalue inner⟩
    · rw [List.mem_singleton.mp hmem] at hdecoded
      cases hdecoded

end BeginCode
