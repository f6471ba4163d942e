import BeginCode.Proofs.TokenShapes
import BeginCode.Proofs.Unlined

/-!
# Writing tokens

Tokens that are written with single spaces between them are scanned back, with all that belongs to
them but their lines. A token stands for itself before a space and before the end: apart from
comments and blanks no pattern matches a text with a space in it, and a literal ends at the sign
that closes it, whatever it holds.
-/

namespace BeginCode

open BeginCode.Token (Kind Lexeme)

/-- The token can be written: it stands alone, or it is a text literal with a single segment. -/
def Token.Printable (token : Token) : Prop := token.StandsAlone ∨ token.IsSegment true true

namespace Source

/-- What comes after a written token. -/
def Separated (rest : List Char) : Prop := ∀ c ∈ rest.head?, c = ' '

/-! ### Matches before a space -/

section Matches

variable {kind : Kind} {first : Char} {others rest : List Char}

theorem space_not_mem_of_lexeme (hlexeme : Lexeme kind first others) (hhash : first ≠ '#')
    (hblank : Token.separates first = false) : ' ' ∉ others := by
  have hfixedTexts : ∀ entry ∈ Kind.fixedTexts, ' ' ∉ entry.1.toList := by decide
  intro hmem
  cases hlexeme with
  | fixed hfixed =>
      have hnot := hfixedTexts _ hfixed
      rw [String.toList_ofList] at hnot
      exact hnot (List.mem_cons_of_mem first hmem)
  | float _ hwhole _ hfraction =>
      rcases List.mem_append.mp hmem with hmem | hmem
      · cases hwhole _ hmem
      rcases List.mem_cons.mp hmem with heq | hmem
      · cases heq
      · cases hfraction _ hmem
  | integer _ hothers => cases hothers _ hmem
  | identifier _ hothers => cases hothers _ hmem
  | comment _ => exact hhash rfl
  | ignored hfirst _ =>
      rw [hfirst] at hblank
      cases hblank

/-- No match goes on beyond a separated one. -/
theorem eq_of_separated {other : Kind} {found : List Char} (hseparated : Separated rest)
    (hfound : Lexeme other first found) (hhash : first ≠ '#')
    (hblank : Token.separates first = false) (hfront : found <+: others ++ rest)
    (hlength : others.length ≤ found.length) : found = others := by
  obtain ⟨more, rfl⟩ :=
    List.prefix_of_prefix_length_le (List.prefix_append others rest) hfront hlength
  cases more with
  | nil => exact List.append_nil others
  | cons c more =>
      obtain ⟨after, hrest⟩ := (List.prefix_append_right_inj others).mp hfront
      have hspace : c = ' ' := hseparated c (by rw [← hrest]; rfl)
      exact absurd (by simp [hspace]) (space_not_mem_of_lexeme hfound hhash hblank)

/-- A text of a kind is read as such before a space; an identifier is no keyword. -/
theorem step_of_lexeme (hlexeme : Lexeme kind first others) (hhash : first ≠ '#')
    (hblank : Token.separates first = false)
    (hkeyword : kind = .identifier →
      String.ofList (first :: others) ∉ Kind.keywords.map Prod.fst)
    (hseparated : Separated rest) (line : Nat) :
    step line first (others ++ rest) = taken line kind (first :: others) rest := by
  have hmatches : kind.Matches (first :: others) := Kind.matches_cons_iff.mpr hlexeme
  have hfront : first :: others <+: first :: (others ++ rest) := List.prefix_append _ rest
  have hstep := recognised_step line first (others ++ rest)
  generalize hsource : first :: (others ++ rest) = source at hstep hfront
  generalize step line first (others ++ rest) = found at hstep
  cases hstep with
  | stray hnone => exact absurd hmatches (hnone kind _ (List.cons_ne_nil first others) hfront)
  | @matched _ other found after hlongest =>
      have hlength := hlongest.longest hfront hmatches
      obtain ⟨c, more, rfl⟩ := List.exists_cons_of_ne_nil hlongest.nonempty
      have hsplit := hsource.trans hlongest.split
      obtain ⟨rfl, hmore⟩ := List.cons.inj hsplit
      have hother := Kind.matches_cons_iff.mp hlongest.matched
      obtain rfl := eq_of_separated hseparated hother hhash hblank ⟨after, hmore.symm⟩
        (Nat.le_of_succ_le_succ hlength)
      obtain rfl := List.append_cancel_left hmore
      suffices other = kind by rw [this]
      rcases hlongest.preferred hmatches with heq | hidentifier
      · exact heq.symm
      · subst hidentifier
        cases hlexeme with
        | fixed hfixed =>
            have hnone : ∀ entry ∈ Kind.fixedTexts, entry.2 ≠ .identifier := by decide
            exact absurd rfl (hnone _ hfixed)
        | identifier hfirst _ =>
            have hword := (Kind.ofWord_eq_or_mem _).resolve_right fun hmem =>
              hkeyword rfl (List.mem_map_of_mem hmem)
            rw [(hother.of_word hfirst).2.elim (·.trans hword) id]

end Matches

/-! ### Single tokens -/

/-- The text is read as this token before a space, on every line. It does not begin with a blank, so
that the space before it ends there. -/
def ReadAs (kind : Kind) (text : List Char) (literal : Option Value) : Prop :=
  ∃ first others, text = first :: others ∧ Token.separates first = false ∧
    ∀ line rest, Separated rest → ∃ later, step line first (others ++ rest) =
      ⟨[.token { kind, lexeme := String.ofList text, line, literal }], later, rest⟩

theorem taken_of_shown {kind : Kind} (hshown : kind.isHidden = false)
    (hdecoded : kind.isDecoded = false) (line : Nat) (text rest : List Char) :
    ∃ later, taken line kind text rest = ⟨[.plain kind text line], later, rest⟩ := by
  cases kind <;>
    first
    | exact ⟨_, rfl⟩
    | exact absurd hshown (by decide)
    | exact absurd hdecoded (by decide)

theorem readAs_fixed {kind : Kind} {text : List Char}
    (hfixed : (String.ofList text, kind) ∈ Kind.fixedTexts) (hshown : kind.isHidden = false) :
    ReadAs kind text none := by
  have hfixedTexts : ∀ entry ∈ Kind.fixedTexts,
      entry.1 ≠ "" ∧ entry.2.isDecoded = false ∧ entry.2 ≠ .identifier := by decide
  obtain ⟨hsome, hdecoded, hidentifier⟩ := hfixedTexts _ hfixed
  cases text with
  | nil => exact absurd String.ofList_nil hsome
  | cons first others =>
      have hfirst := Kind.fixedTexts_first _ hfixed
      rw [String.toList_ofList, List.head?_cons, Option.all_some, Bool.and_eq_true,
        Bool.and_eq_true, Bool.not_eq_true', Bool.not_eq_true', bne_iff_ne] at hfirst
      obtain ⟨⟨-, hblank⟩, hhash⟩ := hfirst
      refine ⟨first, others, rfl, hblank, fun line rest hseparated => ?_⟩
      obtain ⟨later, htaken⟩ := taken_of_shown hshown hdecoded line (first :: others) rest
      rw [step_of_lexeme (.fixed hfixed) hhash hblank (fun heq => absurd heq hidentifier)
        hseparated, htaken]
      exact ⟨later, rfl⟩

/-- What begins a word or a number begins neither a comment nor blanks. -/
theorem class_of_wordOrNumber {c : Char}
    (hc : Token.startsWord c = true ∨ Number.isDigit c = true) :
    c ≠ '#' ∧ Token.separates c = false := by
  have hcode : 48 ≤ c.toNat := by
    rcases hc with hword | hdigit
    · have hword := Token.startsWord_iff.mp hword
      omega
    · exact (Token.isDigit_iff.mp hdigit).1
  constructor
  · rintro rfl
    exact absurd hcode (by decide)
  · rw [Bool.eq_false_iff]
    intro hblank
    have hblank := Token.separates_iff.mp hblank
    omega

theorem readAs_identifier {text : List Char} (hname : text ∈ Pattern.name.language)
    (hkeyword : String.ofList text ∉ Kind.keywords.map Prod.fst) :
    ReadAs .identifier text none := by
  obtain ⟨first, others, hfirst, hothers, rfl⟩ := Pattern.mem_name.mp hname
  obtain ⟨hhash, hblank⟩ := class_of_wordOrNumber (.inl hfirst)
  refine ⟨first, others, rfl, hblank, fun line rest hseparated => ⟨line, ?_⟩⟩
  rw [step_of_lexeme (.identifier hfirst hothers) hhash hblank (fun _ => hkeyword) hseparated]
  rfl

/-- A number of either kind, by what its match stands for. -/
theorem readAs_number {kind : Kind} {text : List Char} {value : Value}
    (hmatches : kind.Matches text) (hdigit : ∀ c ∈ text.head?, Number.isDigit c = true)
    (hsome : text ≠ []) (hkind : kind ≠ .identifier)
    (htaken : ∀ line rest,
      taken line kind text rest = ⟨[.literal kind text line value], line, rest⟩) :
    ReadAs kind text (some value) := by
  obtain ⟨first, others, rfl⟩ := List.exists_cons_of_ne_nil hsome
  obtain ⟨hhash, hblank⟩ := class_of_wordOrNumber (.inr (hdigit first rfl))
  refine ⟨first, others, rfl, hblank, fun line rest hseparated => ⟨line, ?_⟩⟩
  rw [step_of_lexeme (Kind.matches_cons_iff.mp hmatches) hhash hblank
    (fun heq => absurd heq hkind) hseparated, htaken]
  rfl

theorem readAs_integer {digits : List Char} (hdigits : digits ∈ Pattern.digits.language)
    (hvalue : Number.ofDigits digits ≤ 2 ^ 63 - 1) :
    ReadAs .integer digits (some (.integer (.ofNat (Number.ofDigits digits)))) := by
  obtain ⟨hsome, hall⟩ := Pattern.mem_digits.mp hdigits
  refine readAs_number (matches_iff.mpr (.inr ⟨_, by decide, hdigits⟩))
    (fun c hmem => hall c (List.mem_of_mem_head? hmem)) hsome (by decide) fun line rest => ?_
  rw [taken, runPiece, if_pos hvalue]

theorem readAs_float {text : List Char} (htext : text ∈ Pattern.decimal.language) :
    ReadAs .float text (some (.float (pointValue text))) := by
  have hmatches : Kind.float.Matches text := matches_iff.mpr (.inr ⟨_, by decide, htext⟩)
  obtain ⟨whole, hwhole, fraction, -, rfl⟩ := Pattern.mem_decimal.mp htext
  obtain ⟨hsome, hall⟩ := Pattern.mem_digits.mp hwhole
  refine readAs_number hmatches (fun c hmem => ?_) (by simp) (by decide) fun line rest => rfl
  rw [List.head?_append_of_ne_nil whole hsome] at hmem
  exact hall c (List.mem_of_mem_head? hmem)

theorem readAs_character {c : Char} (hquote : c ≠ '\'') (hline : c ≠ '\n') :
    ReadAs .charLiteral ['\'', c, '\''] (some (.char c)) := by
  refine ⟨'\'', [c, '\''], rfl, rfl, fun line rest _ => ⟨line, ?_⟩⟩
  have hstep : step line '\'' ([c, '\''] ++ rest) = character line (c :: '\'' :: rest) := rfl
  have htake : (c :: '\'' :: rest).takeWhile (fun c => c ≠ '\'' && c ≠ '\n') = [c] := by
    simp [hquote, hline]
  have hdrop : (c :: '\'' :: rest).dropWhile (fun c => c ≠ '\'' && c ≠ '\n') = '\'' :: rest := by
    simp [hquote, hline]
  rw [hstep, character]
  simp only [htake, hdrop]
  rfl

theorem readAs_escape {c : Char} (hescapable : c ∈ Token.escapable) :
    ReadAs .escape ['[', c, ']'] (some (.char c)) := by
  refine ⟨'[', [c, ']'], rfl, rfl, fun line rest _ => ⟨line, ?_⟩⟩
  have hstep : step line '[' ([c, ']'] ++ rest) = bracket line (c :: ']' :: rest) := rfl
  rw [hstep, bracket, if_pos hescapable]
  rfl

theorem readAs_of_denotes {kind : Kind} {text : List Char} {literal : Option Value}
    (hdenotes : Token.Denotes kind text literal) : ReadAs kind text literal := by
  cases hdenotes with
  | fixed hfixed hshown => exact readAs_fixed hfixed hshown
  | identifier hname hkeyword => exact readAs_identifier hname hkeyword
  | integer hdigits hvalue => exact readAs_integer hdigits hvalue
  | float htext => exact readAs_float htext
  | character hquote hline => exact readAs_character hquote hline
  | escape hescapable => exact readAs_escape hescapable

/-! Text literals -/

/-- A segment without a line-break symbol is read up to the quote, line ends included. -/
theorem quoted_segment {content : List Char} (hinside : '"' ∉ content ∧ '$' ∉ content)
    (lead before : List Char) (start line : Nat) (rest : List Char) :
    ∃ later, quoted lead before start line (content ++ '"' :: rest) =
      ⟨[lastSegment lead (before.reverse ++ content) start], later, rest⟩ := by
  induction content generalizing before line with
  | nil =>
      rw [List.append_nil]
      exact ⟨line, rfl⟩
  | cons c content ih =>
      simp only [List.mem_cons, not_or] at hinside
      obtain ⟨⟨hquote, hinside⟩, hbreak, hrest⟩ := hinside
      rw [List.cons_append, quoted_other (Ne.symm hquote) (Ne.symm hbreak)]
      obtain ⟨later, hquoted⟩ :=
        ih ⟨hinside, hrest⟩ (c :: before) (if c = '\n' then line + 1 else line)
      rw [List.reverse_cons, List.append_assoc] at hquoted
      exact ⟨later, hquoted⟩

theorem readAs_quoted {kind : Kind} {content : List Char} {value : Value}
    (hinside : '"' ∉ content ∧ '$' ∉ content)
    (hlast : ∀ line, lastSegment ['"'] content line =
      .literal kind ('"' :: content ++ ['"']) line value) :
    ReadAs kind ('"' :: content ++ ['"']) (some value) := by
  refine ⟨'"', content ++ ['"'], rfl, rfl, fun line rest _ => ?_⟩
  have hstep : step line '"' (content ++ ['"'] ++ rest) =
      quoted ['"'] [] line line (content ++ '"' :: rest) := by
    rw [List.append_assoc]
    rfl
  obtain ⟨later, hquoted⟩ := quoted_segment hinside ['"'] [] line line rest
  rw [List.reverse_nil, List.nil_append, hlast] at hquoted
  exact ⟨later, hstep.trans hquoted⟩

theorem readAs_of_denotesSegment {kind : Kind} {text : List Char} {literal : Option Value}
    (hdenotes : Token.DenotesSegment true true kind text literal) : ReadAs kind text literal := by
  cases hdenotes with
  | @text content hinside hword =>
      obtain ⟨htrue, hfalse⟩ := hword rfl
      have hlast (line : Nat) : lastSegment ['"'] content line =
          .literal .text ('"' :: content ++ ['"']) line (.text (String.ofList content)) := by
        rw [lastSegment, if_neg htrue, if_neg hfalse]
        rfl
      exact readAs_quoted hinside hlast
  | kwTrue _ => exact readAs_quoted (by decide) fun line => rfl
  | kwFalse _ => exact readAs_quoted (by decide) fun line => rfl

theorem readAs_of_printable {token : Token} (hprintable : token.Printable) :
    ReadAs token.kind token.lexeme.toList token.literal := by
  rcases hprintable with halone | hsegment
  · exact readAs_of_denotes halone
  · exact readAs_of_denotesSegment hsegment

/-! ### Lists of tokens -/

theorem pieces_of_readAs {kind : Kind} {text rest : List Char} {literal : Option Value}
    (hread : ReadAs kind text literal) (hseparated : Separated rest) (line : Nat) :
    ∃ later, pieces line (text ++ rest) =
      (.token { kind, lexeme := String.ofList text, line, literal } :: (pieces later rest).1,
        (pieces later rest).2) := by
  obtain ⟨first, others, rfl, -, hstep⟩ := hread
  obtain ⟨later, hfound⟩ := hstep line rest hseparated
  refine ⟨later, ?_⟩
  rw [List.cons_append, pieces, hfound]
  rfl

theorem pieces_space {rest : List Char} (hrest : ∀ c ∈ rest.head?, Token.separates c = false)
    (line : Nat) :
    pieces line (' ' :: rest) = (.skipped [' '] :: (pieces line rest).1, (pieces line rest).2) := by
  have hnone : rest.takeWhile Token.separates = [] ∧ rest.dropWhile Token.separates = rest := by
    cases rest with
    | nil => exact ⟨rfl, rfl⟩
    | cons c rest =>
        have hc : ¬Token.separates c = true := Bool.eq_false_iff.mp (hrest c rfl)
        exact ⟨List.takeWhile_cons_of_neg hc, List.dropWhile_cons_of_neg hc⟩
  have hstep : step line ' ' rest = ⟨[.skipped [' ']], line, rest⟩ := by
    have hblanks : step line ' ' rest = blanks line ' ' rest := rfl
    rw [hblanks, blanks, hnone.1, hnone.2]
  rw [pieces, hstep]
  rfl

/-- The texts of the tokens with single spaces between them. -/
def written (tokens : List Token) : List Char :=
  [' '].intercalate (tokens.map fun token => token.lexeme.toList)

theorem written_head {token : Token} (htoken : token.Printable) (others : List Token) :
    ∀ c ∈ (written (token :: others)).head?, Token.separates c = false := by
  obtain ⟨first, text, hlexeme, hblank, -⟩ := readAs_of_printable htoken
  have hhead : (written (token :: others)).head? = some first := by
    cases others with
    | nil => rw [written, List.map_singleton, List.intercalate_singleton, hlexeme, List.head?_cons]
    | cons next others =>
        rw [written, List.map_cons, List.map_cons, List.intercalate_cons_cons, hlexeme,
          List.append_assoc, List.cons_append, List.head?_cons]
  intro c hmem
  rw [hhead] at hmem
  cases hmem
  exact hblank

theorem pieces_written {tokens : List Token} (hprintable : ∀ token ∈ tokens, token.Printable)
    (line : Nat) :
    (pieces line (written tokens)).1.filterMap Piece.error? = [] ∧
      ((pieces line (written tokens)).1.filterMap Piece.token?).map Token.unlined =
        tokens.map Token.unlined := by
  induction tokens generalizing line with
  | nil =>
      have hnone : pieces line (written []) = ([], line) := by
        rw [written, List.map_nil, List.intercalate_nil, pieces]
      rw [hnone]
      exact ⟨rfl, rfl⟩
  | cons token others ih =>
      obtain ⟨htoken, hothers⟩ := List.forall_mem_cons.mp hprintable
      have hread := readAs_of_printable htoken
      have hunlined : (Token.mk token.kind (String.ofList token.lexeme.toList) line
          token.literal).unlined = token.unlined := by
        rw [String.ofList_toList]
        rfl
      cases others with
      | nil =>
          have hseparated : Separated [] := by simp [Separated]
          obtain ⟨later, hpieces⟩ := pieces_of_readAs hread hseparated line
          rw [List.append_nil] at hpieces
          rw [written, List.map_singleton, List.intercalate_singleton, hpieces, pieces]
          exact ⟨rfl, congrArg (fun found => [found]) hunlined⟩
      | cons next others =>
          have hsource : written (token :: next :: others) =
              token.lexeme.toList ++ ' ' :: written (next :: others) := by
            rw [written, List.map_cons, List.map_cons, List.intercalate_cons_cons,
              List.append_assoc]
            rfl
          have hseparated : Separated (' ' :: written (next :: others)) := by simp [Separated]
          obtain ⟨later, hpieces⟩ := pieces_of_readAs hread hseparated line
          obtain ⟨herrors, htokens⟩ := ih hothers later
          have hspace := pieces_space
            (written_head (hothers next List.mem_cons_self) others) later
          rw [hsource, hpieces, hspace]
          exact ⟨herrors, congrArg₂ List.cons hunlined htokens⟩

end Source

/-- Written tokens are scanned without an error, and as the same tokens up to their lines, before
the end of input. -/
theorem scan_written {tokens : List Token} (hprintable : ∀ token ∈ tokens, token.Printable) :
    (scan (" ".intercalate (tokens.map Token.lexeme))).errors = [] ∧
      (scan (" ".intercalate (tokens.map Token.lexeme))).tokens.map Token.unlined =
        tokens.map Token.unlined ++ [.pastEnd] := by
  have hsource : (" ".intercalate (tokens.map Token.lexeme)).toList = Source.written tokens := by
    rw [String.toList_intercalate, List.map_map]
    rfl
  obtain ⟨herrors, htokens⟩ := Source.pieces_written hprintable 1
  rw [← hsource] at herrors htokens
  refine ⟨herrors, ?_⟩
  rw [Scan.tokens, List.map_append]
  exact congrArg (· ++ _) htokens

/-- Literals that hold other literals' signs, a comment sign and a line end, beside a keyword, a
word that begins like it, and numbers with zeros that do not count. -/
theorem scan_written_crowded :
    (∀ token ∈ [Token.mk .kwIf "if" 1 none, ⟨.identifier, "iffy", 1, none⟩,
        ⟨.lineBreak, "$", 1, none⟩, ⟨.less, "<", 1, none⟩,
        ⟨.integer, "007", 1, some (.integer 7)⟩, ⟨.float, "00.10", 1, some (.float 0.1)⟩,
        ⟨.charLiteral, "'\"'", 1, some (.char '"')⟩, ⟨.escape, "[]]", 1, some (.char ']')⟩,
        ⟨.text, "\"#'[ é\n\"", 1, some (.text "#'[ é\n")⟩,
        ⟨.kwTrue, "\"TRUE\"", 1, some (.bool true)⟩], token.Printable) ∧
      (scan "if iffy $ < 007 00.10 '\"' []] \"#'[ é\n\" \"TRUE\"").errors = [] ∧
      (scan "if iffy $ < 007 00.10 '\"' []] \"#'[ é\n\" \"TRUE\"").tokens.map Token.unlined =
        [⟨.kwIf, "if", 0, none⟩, ⟨.identifier, "iffy", 0, none⟩, ⟨.lineBreak, "$", 0, none⟩,
          ⟨.less, "<", 0, none⟩, ⟨.integer, "007", 0, some (.integer 7)⟩,
          ⟨.float, "00.10", 0, some (.float 0.1)⟩,
          ⟨.charLiteral, "'\"'", 0, some (.char '"')⟩, ⟨.escape, "[]]", 0, some (.char ']')⟩,
          ⟨.text, "\"#'[ é\n\"", 0, some (.text "#'[ é\n")⟩,
          ⟨.kwTrue, "\"TRUE\"", 0, some (.bool true)⟩, ⟨.endOfInput, "", 0, none⟩] := by
  have hsource : " ".intercalate ["if", "iffy", "$", "<", "007", "00.10", "'\"'", "[]]",
      "\"#'[ é\n\"", "\"TRUE\""] = "if iffy $ < 007 00.10 '\"' []] \"#'[ é\n\" \"TRUE\"" := by
    decide +kernel
  rw [← hsource]
  suffices hprintable : _ by
    obtain ⟨herrors, htokens⟩ := scan_written hprintable
    exact ⟨hprintable, herrors, htokens⟩
  simp only [List.forall_mem_cons]
  refine ⟨.inl ?_, .inl ?_, .inl ?_, .inl ?_, .inl ?_, .inl ?_, .inl ?_, .inl ?_, .inr ?_, .inr ?_,
    ?_⟩
  · exact .fixed (by decide) rfl
  · exact .identifier (Pattern.mem_name.mpr ⟨'i', ['f', 'f', 'y'], rfl,
      List.all_eq_true.mp (by decide), by decide⟩) (by decide)
  · exact .fixed (by decide) rfl
  · exact .fixed (by decide) rfl
  · exact .integer (Pattern.mem_digits.mpr ⟨by decide, List.all_eq_true.mp (by decide)⟩)
      (by decide)
  · have hvalue : Source.pointValue "00.10".toList = 0.1 := by decide +kernel
    have htext : "00.10".toList ∈ Pattern.decimal.language :=
      Pattern.mem_decimal.mpr ⟨['0', '0'],
        Pattern.mem_digits.mpr ⟨by decide, List.all_eq_true.mp (by decide)⟩, ['1', '0'],
        Pattern.mem_digits.mpr ⟨by decide, List.all_eq_true.mp (by decide)⟩, by decide⟩
    exact hvalue ▸ .float htext
  · exact .character (by decide) (by decide)
  · exact .escape (by decide)
  · have hinside : '"' ∉ "#'[ é\n".toList ∧ '$' ∉ "#'[ é\n".toList := by decide
    exact .text hinside (by decide)
  · exact .kwTrue rfl
  · simp

end BeginCode
