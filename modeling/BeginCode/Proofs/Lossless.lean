import BeginCode.Source.Scan
import Mathlib.Data.List.TakeWhile

/-!
# Scanning loses nothing

The pieces of a scanned source make up the source, in order and without gaps. `Source.Cut` cuts a
text into pieces that each fit where they stand: a token has a text, skipped text is blanks, a line
end or a comment, and rejected text is as much as its error accounts for. Every step of the scanner
cuts off a front part of the source, so a whole scan cuts all of it.
-/

namespace BeginCode

namespace Source

/-- The text ends, or its line does. -/
def EndsLine (rest : List Char) : Prop := ∀ c ∈ rest.head?, c = '\n'

/-- Text that is skipped before `rest`: all blanks that stand there, one line end, or a comment up
to the line end. -/
inductive Skips (rest : List Char) : List Char → Prop where
  | blanks {text : List Char} (hsome : text ≠ [])
      (hblanks : ∀ c ∈ text, Token.separates c = true)
      (hnext : ∀ c ∈ rest.head?, Token.separates c = false) : Skips rest text
  | lineEnd : Skips rest ['\n']
  | comment {text : List Char} (hline : '\n' ∉ text) (hnext : EndsLine rest) :
      Skips rest ('#' :: text)

/-- The text that an error accounts for before `rest`. -/
inductive Rejects (rest : List Char) : LexicalCause → List Char → Prop where
  | character (c : Char) : Rejects rest (.unexpectedCharacter (String.singleton c)) [c]
  | number {digits : List Char} (hsome : digits ≠ [])
      (hdigits : ∀ c ∈ digits, Number.isDigit c = true) :
      Rejects rest (.invalidNumber (String.ofList digits)) digits
  | openCharacter {content : List Char} (hcontent : ∀ c ∈ content, c ≠ '\'' ∧ c ≠ '\n')
      (hnext : EndsLine rest) : Rejects rest .unterminatedCharacter ('\'' :: content)
  | closedCharacter {content : List Char} (hcontent : ∀ c ∈ content, c ≠ '\'' ∧ c ≠ '\n')
      (hlength : content.length ≠ 1) :
      Rejects rest .invalidCharacter ('\'' :: content ++ ['\''])
  | closedEscape {c : Char} (hescapable : c ∉ Token.escapable) :
      Rejects rest (.invalidEscape (String.singleton c)) ['[', c, ']']
  /-- No bracket closes the escape after its character, which is left over. -/
  | openEscape (hopen : rest[1]? ≠ some ']') :
      Rejects rest (.invalidEscape (String.ofList (rest.take 1))) ['[']
  /-- The last segment of a literal that is not closed; `lead` is its opening quote. -/
  | openText {lead content : List Char} (hlead : lead = [] ∨ lead = ['"'])
      (hcontent : ∀ c ∈ content, c ≠ '"' ∧ c ≠ '$') (hrest : rest = []) :
      Rejects rest .unterminatedString (lead ++ content)

end Source

/-- A piece has its place between the piece before it and the text after it. Only a literal that
ends with a line-break symbol is rejected without any text of its own. -/
def Piece.Fits (previous : Option Piece) (rest : List Char) : Piece → Prop
  | .token found => found.lexeme ≠ ""
  | .skipped text => Source.Skips rest text
  | .rejected text error => Source.Rejects rest error.cause text ∧
      (text = [] → error.cause = .unterminatedString ∧ rest = [] ∧
        ∃ symbol, previous = some (.token symbol) ∧ symbol.kind = .lineBreak ∧
          symbol.lexeme = "$")

namespace Source

/-- The text is cut into pieces up to the rest. -/
inductive Cut : Option Piece → List Char → List Piece → List Char → Prop where
  | nil {previous : Option Piece} {rest : List Char} : Cut previous rest [] rest
  | cons {previous : Option Piece} {piece : Piece} {text rest last : List Char}
      {others : List Piece} (htext : text = piece.text ++ rest) (hfits : piece.Fits previous rest)
      (hothers : Cut (some piece) rest others last) : Cut previous text (piece :: others) last

theorem Cut.one {previous : Option Piece} {piece : Piece} {text rest : List Char}
    (htext : text = piece.text ++ rest) (hfits : piece.Fits previous rest) :
    Cut previous text [piece] rest := .cons htext hfits .nil

theorem Cut.append {previous : Option Piece} {text middle rest : List Char}
    {pieces others : List Piece} (hcut : Cut previous text pieces middle)
    (hothers : ∀ earlier, Cut earlier middle others rest) :
    Cut previous text (pieces ++ others) rest := by
  induction hcut with
  | nil => exact hothers _
  | cons htext hfits _ ih => exact .cons htext hfits (ih hothers)

theorem Cut.flatMap_text {previous : Option Piece} {text rest : List Char} {pieces : List Piece}
    (hcut : Cut previous text pieces rest) : text = pieces.flatMap Piece.text ++ rest := by
  induction hcut with
  | nil => rfl
  | cons htext _ _ ih => rw [htext, ih, List.flatMap_cons, List.append_assoc]

theorem Cut.fits {previous : Option Piece} {text rest : List Char} {pieces : List Piece}
    (hcut : Cut previous text pieces rest) {before after : List Piece} {piece : Piece}
    (hpieces : pieces = before ++ piece :: after) :
    piece.Fits (before.getLast?.or previous) (after.flatMap Piece.text ++ rest) := by
  induction hcut generalizing before with
  | nil => simp at hpieces
  | @cons previous first _ middle _ others htext hfits hothers ih =>
      cases before with
      | nil =>
          obtain ⟨rfl, rfl⟩ := List.cons.inj hpieces
          rw [← hothers.flatMap_text]
          exact hfits
      | cons earlier before =>
          obtain ⟨rfl, hothersEq⟩ := List.cons.inj hpieces
          have hlater := ih hothersEq
          rw [List.getLast?_cons]
          cases hlast : before.getLast? with
          | none => rwa [hlast] at hlater
          | some last => rwa [hlast] at hlater

/-! ### Steps -/

theorem not_of_mem_head?_dropWhile {p : Char → Bool} {text : List Char} {c : Char}
    (hmem : c ∈ (text.dropWhile p).head?) : p c = false := by
  have hhead := List.head?_dropWhile_not p text
  rw [Option.mem_def.mp hmem] at hhead
  exact hhead

/-- What a comment or a character literal leaves over begins with a line end. -/
theorem endsLine_dropWhile (text : List Char) : EndsLine (text.dropWhile (· ≠ '\n')) := by
  intro c hmem
  simpa using not_of_mem_head?_dropWhile hmem

variable (previous : Option Piece) (line : Nat) (first : Char) (rest : List Char)

theorem cut_blanks (hfirst : Token.separates first = true) :
    Cut previous (first :: rest) (blanks line first rest).pieces (blanks line first rest).rest := by
  refine .one ?_ (.blanks (List.cons_ne_nil _ _) ?_ ?_)
  · exact congrArg (first :: ·) List.takeWhile_append_dropWhile.symm
  · intro c hmem
    rcases List.mem_cons.mp hmem with rfl | hmem
    · exact hfirst
    · exact List.mem_takeWhile_imp hmem
  · intro c hmem
    exact not_of_mem_head?_dropWhile hmem

theorem cut_comment :
    Cut previous ('#' :: rest) (comment line rest).pieces (comment line rest).rest := by
  refine .one ?_ (.comment ?_ (endsLine_dropWhile rest))
  · exact congrArg ('#' :: ·) List.takeWhile_append_dropWhile.symm
  · intro hmem
    simpa using List.mem_takeWhile_imp hmem

/-- A token whose text is cut off fits anywhere. -/
theorem cut_plain {kind : Token.Kind} {text lexeme rest : List Char} (hsome : lexeme ≠ [])
    (htext : text = lexeme ++ rest) : Cut previous text [.plain kind lexeme line] rest := by
  refine .one (htext.trans (congrArg (· ++ rest) String.toList_ofList.symm)) fun hempty => hsome ?_
  simpa using congrArg String.toList hempty

theorem cut_literal {kind : Token.Kind} {text lexeme rest : List Char} {value : Value}
    (hsome : lexeme ≠ []) (htext : text = lexeme ++ rest) :
    Cut previous text [.literal kind lexeme line value] rest := by
  refine .one (htext.trans (congrArg (· ++ rest) String.toList_ofList.symm)) fun hempty => hsome ?_
  simpa using congrArg String.toList hempty

theorem cut_reject {cause : LexicalCause} {text rejected rest : List Char}
    (hsome : rejected ≠ []) (htext : text = rejected ++ rest)
    (hrejects : Rejects rest cause rejected) :
    Cut previous text [.reject rejected cause line] rest :=
  .one htext ⟨hrejects, fun hempty => absurd hempty hsome⟩

theorem cut_word :
    Cut previous (first :: rest) (word line first rest).pieces (word line first rest).rest :=
  cut_plain previous line (List.cons_ne_nil _ _)
    (congrArg (first :: ·) List.takeWhile_append_dropWhile.symm)

theorem cut_integerPiece {digits rest : List Char} (hsome : digits ≠ [])
    (hdigits : ∀ c ∈ digits, Number.isDigit c = true) :
    Cut previous (digits ++ rest) [integerPiece digits line] rest := by
  unfold integerPiece
  split
  · exact cut_literal previous line hsome rfl
  · exact cut_reject previous line hsome rfl (.number hsome hdigits)

theorem cut_number (hfirst : Number.isDigit first = true) :
    Cut previous (first :: rest) (number line first rest).pieces (number line first rest).rest := by
  have hdigits : ∀ c ∈ first :: rest.takeWhile Number.isDigit, Number.isDigit c = true := by
    intro c hmem
    rcases List.mem_cons.mp hmem with rfl | hmem
    · exact hfirst
    · exact List.mem_takeWhile_imp hmem
  have hsource : first :: rest =
      first :: rest.takeWhile Number.isDigit ++ rest.dropWhile Number.isDigit :=
    congrArg (first :: ·) List.takeWhile_append_dropWhile.symm
  unfold number
  rw [hsource]
  split
  · rename_i after hafter
    rw [hafter]
    split
    · exact cut_integerPiece previous line (List.cons_ne_nil _ _) hdigits
    · refine cut_literal previous line (by simp) ?_
      simp only [List.append_assoc, List.cons_append, List.takeWhile_append_dropWhile]
  · exact cut_integerPiece previous line (List.cons_ne_nil _ _) hdigits

theorem cut_symbolPiece : Cut previous (first :: rest) [symbolPiece first line] rest := by
  unfold symbolPiece
  split
  · exact cut_plain previous line (List.cons_ne_nil _ _) rfl
  · exact cut_reject previous line (List.cons_ne_nil _ _) rfl (.character first)

theorem cut_symbol :
    Cut previous (first :: rest) (symbol line first rest).pieces (symbol line first rest).rest := by
  cases rest with
  | nil => exact cut_symbolPiece previous line first []
  | cons second rest =>
      simp only [symbol]
      split
      · exact cut_plain previous line (List.cons_ne_nil _ _) rfl
      · exact cut_symbolPiece previous line first (second :: rest)

theorem cut_character :
    Cut previous ('\'' :: rest) (character line rest).pieces (character line rest).rest := by
  have hcontent : ∀ c ∈ rest.takeWhile (fun c => c ≠ '\'' && c ≠ '\n'), c ≠ '\'' ∧ c ≠ '\n' := by
    intro c hmem
    simpa using List.mem_takeWhile_imp hmem
  have hnext : ∀ c ∈ (rest.dropWhile fun c => c ≠ '\'' && c ≠ '\n').head?, c = '\'' ∨ c = '\n' := by
    intro c hmem
    have hstop := not_of_mem_head?_dropWhile hmem
    simpa [or_iff_not_imp_left] using hstop
  have hsource : '\'' :: rest = '\'' :: rest.takeWhile (fun c => c ≠ '\'' && c ≠ '\n') ++
      rest.dropWhile fun c => c ≠ '\'' && c ≠ '\n' :=
    congrArg ('\'' :: ·) List.takeWhile_append_dropWhile.symm
  rw [hsource]
  unfold character
  generalize rest.takeWhile (fun c => c ≠ '\'' && c ≠ '\n') = content at hcontent ⊢
  generalize rest.dropWhile (fun c => c ≠ '\'' && c ≠ '\n') = after at hnext ⊢
  dsimp only
  split
  · split
    · exact cut_literal previous line (by simp) (by simp)
    · rename_i hmany
      refine cut_reject previous line (by simp) (by simp) (.closedCharacter hcontent ?_)
      intro hlength
      obtain ⟨c, rfl⟩ := List.length_eq_one_iff.mp hlength
      exact hmany c rfl
  · rename_i hopen
    refine cut_reject previous line (List.cons_ne_nil _ _) rfl (.openCharacter hcontent ?_)
    intro c hmem
    refine (hnext c hmem).resolve_left fun hquote => ?_
    obtain ⟨others, rfl⟩ := List.head?_eq_some_iff.mp (Option.mem_def.mp hmem)
    exact hopen others (by rw [hquote])

theorem cut_bracket :
    Cut previous ('[' :: rest) (bracket line rest).pieces (bracket line rest).rest := by
  unfold bracket
  split
  · split
    · exact cut_literal previous line (List.cons_ne_nil _ _) rfl
    · rename_i hescapable
      exact cut_reject previous line (List.cons_ne_nil _ _) rfl (.closedEscape hescapable)
  · rename_i c after hopen
    refine cut_reject previous line (List.cons_ne_nil _ _) rfl ?_
    have hcharacter : String.singleton c = String.ofList ((c :: after).take 1) := by
      rw [String.singleton_eq_ofList]
      rfl
    rw [hcharacter]
    refine .openEscape fun hclosed => ?_
    cases after with
    | nil => cases hclosed
    | cons second after =>
        cases hclosed
        exact hopen after rfl
  · refine cut_reject previous line (List.cons_ne_nil _ _) rfl ?_
    have hnothing : "" = String.ofList (([] : List Char).take 1) := String.ofList_nil.symm
    rw [hnothing]
    exact .openEscape (by simp)

/-- A segment that is open has no quote and no line-break symbol in it, and if it is empty then a
line-break symbol comes before it. -/
structure Pending (previous : Option Piece) (lead content : List Char) : Prop where
  quote : lead = [] ∨ lead = ['"']
  inside : ∀ c ∈ content, c ≠ '"' ∧ c ≠ '$'
  before (hlead : lead = []) (hcontent : content = []) :
    ∃ symbol, previous = some (.token symbol) ∧ symbol.kind = .lineBreak ∧ symbol.lexeme = "$"

theorem Pending.cons {previous : Option Piece} {lead content : List Char}
    (hpending : Pending previous lead content) {c : Char} (hquote : c ≠ '"') (hbreak : c ≠ '$') :
    Pending previous lead (c :: content) := by
  refine ⟨hpending.quote, fun other hmem => ?_, fun _ hempty => ?_⟩
  · rcases List.mem_cons.mp hmem with rfl | hmem
    · exact ⟨hquote, hbreak⟩
    · exact hpending.inside other hmem
  · exact absurd hempty (List.cons_ne_nil _ _)

theorem cut_lastSegment (lead content : List Char) :
    Cut previous (lead ++ content ++ '"' :: rest) [lastSegment lead content line] rest := by
  have hsome : lead ++ content ++ ['"'] ≠ [] := by simp
  have htext : lead ++ content ++ '"' :: rest = lead ++ content ++ ['"'] ++ rest := by simp
  unfold lastSegment
  split
  · exact cut_literal previous line hsome htext
  split
  · exact cut_literal previous line hsome htext
  · exact cut_literal previous line hsome htext

theorem cut_segment (lead content : List Char) :
    Cut previous (lead ++ content ++ rest) (segment lead content line) rest := by
  unfold segment
  split
  · rename_i hnone
    simp only [Bool.and_eq_true, List.isEmpty_iff] at hnone
    obtain ⟨rfl, rfl⟩ := hnone
    exact .nil
  · rename_i hsome
    refine cut_literal previous line ?_ rfl
    simpa using hsome

/-- The open segment and the text after it are cut up to the closing quote. -/
theorem cut_quoted {previous : Option Piece} {lead content : List Char}
    (hpending : Pending previous lead content) (start line : Nat) (text : List Char) :
    Cut previous (lead ++ content.reverse ++ text) (quoted lead content start line text).pieces
      (quoted lead content start line text).rest := by
  fun_induction quoted lead content start line text generalizing previous with
  | case1 lead content start line =>
      refine .one rfl ⟨.openText hpending.quote ?_ rfl, fun hempty => ⟨rfl, rfl, ?_⟩⟩
      · intro c hmem
        exact hpending.inside c (List.mem_reverse.mp hmem)
      · obtain ⟨hlead, hcontent⟩ := List.append_eq_nil_iff.mp hempty
        exact hpending.before hlead (List.reverse_eq_nil_iff.mp hcontent)
  | case2 lead content start line rest => exact cut_lastSegment previous start rest lead _
  | case3 lead content start line rest ih =>
      have hrest : Cut (some (.plain .lineBreak ['$'] line)) rest
          (quoted [] [] (line + 1) (line + 1) rest).pieces
          (quoted [] [] (line + 1) (line + 1) rest).rest :=
        ih ⟨.inl rfl, by simp, fun _ _ => ⟨_, rfl, rfl, rfl⟩⟩
      have hcut := (cut_segment previous start ('$' :: rest) lead content.reverse).append
        fun _ => .cons (by simp [Piece.plain, Piece.text]) (by simp [Piece.plain, Piece.Fits]) hrest
      simpa only [Step.prepend, List.append_assoc, List.singleton_append] using hcut
  | case4 lead content start line rest ih =>
      have hcut := ih (hpending.cons (by decide) (by decide))
      rwa [List.reverse_cons, List.append_assoc, List.append_assoc, ← List.append_assoc] at hcut
  | case5 lead content start line c rest hquote hbreak _ ih =>
      have hcut := ih (hpending.cons hquote hbreak)
      rwa [List.reverse_cons, List.append_assoc, List.append_assoc, ← List.append_assoc] at hcut

theorem cut_step :
    Cut previous (first :: rest) (step line first rest).pieces (step line first rest).rest := by
  unfold step
  split
  · rename_i hlineEnd
    rw [hlineEnd]
    exact .one rfl .lineEnd
  split
  · rename_i hbreak
    rw [hbreak]
    exact cut_plain previous line (List.cons_ne_nil _ _) rfl
  split
  · rename_i hcomment
    rw [hcomment]
    exact cut_comment previous line rest
  split
  · rename_i hquote
    have hpending : Pending previous ['"'] [] := ⟨.inr rfl, by simp, by simp⟩
    rw [hquote]
    exact cut_quoted hpending line line rest
  split
  · rename_i hquote
    rw [hquote]
    exact cut_character previous line rest
  split
  · rename_i hbracket
    rw [hbracket]
    exact cut_bracket previous line rest
  split
  · rename_i hblank
    exact cut_blanks previous line first rest hblank
  split
  · rename_i hdigit
    exact cut_number previous line first rest hdigit
  split
  · exact cut_word previous line first rest
  · exact cut_symbol previous line first rest

theorem cut_pieces (source : List Char) : Cut previous source (pieces line source).1 [] := by
  fun_induction pieces line source generalizing previous with
  | case1 => exact .nil
  | case2 line first rest found after ih => exact (cut_step previous line first rest).append ih

end Source

/-- The source is the text of pieces that each fit where they stand; those with a token are all
tokens but the end of input, and those with an error are all errors, in order. -/
theorem scan_lossless (source : String) :
    ∃ pieces : List Piece, pieces.flatMap Piece.text = source.toList ∧
      (∃ last : Token, last.kind = .endOfInput ∧
        (scan source).tokens = pieces.filterMap Piece.token? ++ [last]) ∧
      (scan source).report.entries = (pieces.filterMap Piece.error?).map .lexical ∧
      ∀ before piece after, pieces = before ++ piece :: after →
        piece.Fits before.getLast? (after.flatMap Piece.text) := by
  have hcut := Source.cut_pieces none 1 source.toList
  refine ⟨(scan source).pieces, ?_, ⟨_, rfl, rfl⟩, rfl, fun before piece after hpieces => ?_⟩
  · have htext := hcut.flatMap_text
    rw [List.append_nil] at htext
    exact htext.symm
  · have hfits := hcut.fits hpieces
    rwa [List.append_nil, Option.or_none] at hfits

end BeginCode
