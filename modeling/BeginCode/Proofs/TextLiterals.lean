import BeginCode.Proofs.ExprPrinting
import BeginCode.Proofs.ExprReading

/-!
# The value of a text literal

A text literal is scanned into one token for each of its segments and one for each line-break symbol
between them; an empty segment between two symbols has no token. The reader joins the tokens again,
and what it builds evaluates to the text with a line end for every symbol.

The reader works from left to right, so the proof follows an `Opening`: the tokens that have been
read and the expression around the operand that is still to come.
-/

namespace BeginCode

open BeginCode.Token (Kind)

/-- A line-break symbol inside a literal stands for a line end. -/
def Source.lineEnds (text : List Char) : List Char := text.map fun c => if c = '$' then '\n' else c

/-- The value of a literal with the given text between its quotes. -/
def Value.ofQuoted (text : List Char) : Value :=
  if text = "TRUE".toList then .bool true
  else if text = "FALSE".toList then .bool false
  else .text (String.ofList (Source.lineEnds text))

namespace Source

@[simp]
theorem lineEnds_append (front back : List Char) :
    lineEnds (front ++ back) = lineEnds front ++ lineEnds back := List.map_append

theorem lineEnds_eq_self {text : List Char} (htext : '$' ∉ text) : lineEnds text = text := by
  induction text with
  | nil => rfl
  | cons c text ih =>
      rw [List.mem_cons, not_or] at htext
      obtain ⟨hc, htext⟩ := htext
      rw [lineEnds, List.map_cons, if_neg (Ne.symm hc)]
      exact congrArg (c :: ·) (ih htext)

end Source

namespace Value

theorem display_ofQuoted (text : List Char) :
    (ofQuoted text).display = String.ofList (Source.lineEnds text) := by
  unfold ofQuoted
  by_cases htrue : text = "TRUE".toList
  · rw [if_pos htrue, htrue]
    rfl
  by_cases hfalse : text = "FALSE".toList
  · rw [if_neg htrue, if_pos hfalse, hfalse]
    rfl
  · rw [if_neg htrue, if_neg hfalse]
    rfl

theorem ofQuoted_of_mem {text : List Char} (htext : '$' ∈ text) :
    ofQuoted text = .text (String.ofList (Source.lineEnds text)) := by
  have htrue : text ≠ "TRUE".toList := by
    rintro rfl
    exact absurd htext (by decide)
  have hfalse : text ≠ "FALSE".toList := by
    rintro rfl
    exact absurd htext (by decide)
  rw [ofQuoted, if_neg htrue, if_neg hfalse]

end Value

namespace Expr

/-- In every environment the expression has this value, and it changes nothing. -/
def Evaluates (expr : Expr) (value : Value) : Prop :=
  ∀ environment, expr.eval.run environment = .ok value environment

theorem evaluates_literal (value : Value) (line : Nat) : (literal value line).Evaluates value :=
  fun _ => rfl

theorem Evaluates.lineBreak {operand : Expr} {value : Value} (hoperand : operand.Evaluates value)
    (line : Nat) :
    (unary .lineBreak operand line).Evaluates (.text ("\n" ++ value.display)) := by
  intro environment
  rw [eval, EStateM.run_bind, hoperand environment]
  rfl

theorem Evaluates.join {left right : Expr} {first second : Value} (hleft : left.Evaluates first)
    (hright : right.Evaluates second) (line : Nat) :
    (binary (.join .lineBreak) left right line).Evaluates
      (.text (first.display ++ "\n" ++ second.display)) := by
  intro environment
  rw [eval, EStateM.run_bind, hleft environment]
  dsimp only
  rw [EStateM.run_bind, hright environment]
  rfl

/-- A value after the text that has been joined so far, or alone if nothing has. -/
def joined (shown : Option String) (value : Value) : Value :=
  match shown with
  | none => value
  | some text => .text (text ++ value.display)

theorem joined_text (shown : Option String) (text : String) :
    joined shown (.text text) = .text (shown.getD "" ++ text) := by
  cases shown with
  | none => rw [joined, Option.getD_none, String.empty_append]
  | some before => rfl

/-- A text up to a symbol in it and the line end for the symbol come before the rest. -/
theorem joined_ofQuoted (shown : Option String) {text : List Char} (htext : '$' ∉ text)
    (rest : List Char) :
    joined shown (Value.ofQuoted (text ++ '$' :: rest)) =
      joined (some (shown.getD "" ++ String.ofList text ++ "\n")) (Value.ofQuoted rest) := by
  have hends : Source.lineEnds (text ++ '$' :: rest) = text ++ '\n' :: Source.lineEnds rest := by
    rw [Source.lineEnds_append, Source.lineEnds_eq_self htext]
    rfl
  rw [Value.ofQuoted_of_mem (by simp), joined_text, hends, joined, Value.display_ofQuoted,
    String.ofList_append, ← List.singleton_append, String.ofList_append]
  simp only [String.append_assoc]

/-- Tokens have been read up to an operand that is still to come, on the given line at the latest;
`wrap` is what is built around it, and `shown` is the text before it. -/
structure Opening (front : List Token) (line : Nat) (shown : Option String)
    (wrap : Expr → Expr) : Prop where
  derives {tokens rest : List Token} {operand : Expr}
    (hline : (tokens.headD .pastEnd).line ≤ line)
    (hoperand : Derives .prefixed tokens operand rest) :
    Derives .product (front ++ tokens) (wrap operand) rest
  evaluates {operand : Expr} {value : Value} (hoperand : operand.Evaluates value) :
    (wrap operand).Evaluates (joined shown value)

theorem hasOperand_of_derives {level : Level} {symbol : Token} {tokens rest : List Token}
    {expr : Expr} (hline : (tokens.headD .pastEnd).line ≤ symbol.line + 1)
    (hderives : Derives level tokens expr rest) : symbol.hasOperand tokens = true := by
  obtain ⟨first, others, rfl, hbegins⟩ := hderives.begins
  rw [Token.hasOperand, Bool.and_eq_true, decide_eq_true_eq]
  exact ⟨hline, hbegins⟩

theorem opening_start (line : Nat) : Opening [] line none id :=
  ⟨fun _ hoperand => .loosen (by decide) hoperand, fun hoperand => hoperand⟩

section Steps

variable {front : List Token} {line : Nat} {shown : Option String} {wrap : Expr → Expr}

theorem Opening.derives_literal (hopening : Opening front line shown wrap) {token : Token}
    {value : Value} (hvalue : token.literalValue? = some value) (hline : token.line ≤ line)
    (rest : List Token) :
    Derives .product (front ++ token :: rest) (wrap (literal value token.line)) rest :=
  hopening.derives hline (.loosen (by decide) (.literal hvalue))

/-- A symbol right after another one is a prefix of what follows. -/
theorem Opening.lineBreak (hopening : Opening front line shown wrap) {symbol : Token}
    (hkind : symbol.kind = .lineBreak) (hline : symbol.line ≤ line) :
    Opening (front ++ [symbol]) (symbol.line + 1) (some (shown.getD "" ++ "\n"))
      fun operand => wrap (unary .lineBreak operand symbol.line) := by
  refine ⟨fun {tokens rest operand} hnext hoperand => ?_, fun {operand value} hoperand => ?_⟩
  · have hprefixed : prefixed? symbol.kind = some .lineBreak := by rw [hkind]; rfl
    rw [List.append_assoc]
    exact hopening.derives hline
      (.prefixed hprefixed (fun _ => hasOperand_of_derives hnext hoperand) hoperand)
  · have hwrapped := hopening.evaluates (hoperand.lineBreak symbol.line)
    rw [joined_text, ← String.append_assoc] at hwrapped
    exact hwrapped

/-- A segment and the symbol after it. -/
theorem Opening.segment (hopening : Opening front line shown wrap) {token symbol : Token}
    {text : String} (hvalue : token.literalValue? = some (.text text))
    (hline : token.line ≤ line) (hkind : symbol.kind = .lineBreak) :
    Opening (front ++ [token, symbol]) (symbol.line + 1)
      (some (shown.getD "" ++ text ++ "\n"))
      fun operand => binary (.join .lineBreak) (wrap (literal (.text text) token.line)) operand
        symbol.line := by
  refine ⟨fun {tokens rest operand} hnext hoperand => ?_, fun {operand value} hoperand => ?_⟩
  · have hleft := hopening.derives_literal hvalue hline (symbol :: tokens)
    have hlevel : symbol.kind.operatorLevel? = some .product := by rw [hkind]; rfl
    have hjoin : symbol.kind.join? = some (.binary (.join .lineBreak)) := by rw [hkind]; rfl
    rw [List.append_assoc]
    exact .join hleft hlevel hjoin (fun _ => hasOperand_of_derives hnext hoperand) hoperand
  · have hleft := hopening.evaluates (evaluates_literal (.text text) token.line)
    rw [joined_text] at hleft
    exact hleft.join hoperand symbol.line

end Steps

end Expr

/-! ### Scanning a literal -/

namespace Source

/-- The tokens among the pieces. -/
def Step.tokens (step : Step) : List Token := step.pieces.filterMap Piece.token?

def lineBreakAt (line : Nat) : Token := { kind := .lineBreak, lexeme := "$", line }

theorem quoted_lineBreak (lead content : List Char) (start line : Nat) (rest : List Char) :
    (quoted lead content start line ('$' :: rest)).tokens =
      (segment lead content.reverse start).filterMap Piece.token? ++
        lineBreakAt line :: (quoted [] [] (line + 1) (line + 1) rest).tokens := by
  rw [quoted, Step.tokens, Step.prepend, List.filterMap_append, List.filterMap_append,
    List.append_assoc]
  rfl

/-- Any other character, a line end included, belongs to the open segment. -/
theorem quoted_other {c : Char} (hquote : c ≠ '"') (hbreak : c ≠ '$') (lead content : List Char)
    (start line : Nat) (rest : List Char) :
    quoted lead content start line (c :: rest) =
      quoted lead (c :: content) start (if c = '\n' then line + 1 else line) rest := by
  by_cases hend : c = '\n'
  · subst hend
    rfl
  · rw [if_neg hend, quoted] <;> assumption

/-- A literal that is closed is read to its quote without an error. -/
theorem quoted_closed {body : List Char} (hbody : '"' ∉ body) (lead content : List Char)
    (start line : Nat) :
    (quoted lead content start line (body ++ ['"'])).rest = [] ∧
      (quoted lead content start line (body ++ ['"'])).pieces.filterMap Piece.error? = [] := by
  induction body generalizing lead content start line with
  | nil =>
      refine ⟨rfl, ?_⟩
      rw [List.nil_append, quoted, lastSegment]
      split
      · rfl
      split <;> rfl
  | cons c body ih =>
      rw [List.mem_cons, not_or] at hbody
      obtain ⟨hquote, hbody⟩ := hbody
      rw [List.cons_append]
      by_cases hbreak : c = '$'
      · subst hbreak
        obtain ⟨hrest, herrors⟩ := ih hbody [] [] (line + 1) (line + 1)
        rw [quoted]
        refine ⟨hrest, ?_⟩
        rw [Step.prepend, List.filterMap_append, List.filterMap_append, herrors, segment]
        split <;> rfl
      · rw [quoted_other (Ne.symm hquote) hbreak]
        exact ih hbody lead (c :: content) start _

theorem exists_segment {lead content : List Char} (hsome : ¬(lead = [] ∧ content = []))
    (line : Nat) :
    ∃ token : Token, (segment lead content line).filterMap Piece.token? = [token] ∧
      token.line = line ∧ token.literalValue? = some (.text (String.ofList content)) := by
  rw [segment, if_neg (by simpa using hsome)]
  exact ⟨_, rfl, rfl, rfl⟩

theorem exists_lastSegment {content : List Char} (hcontent : '$' ∉ content) (lead : List Char)
    (line : Nat) :
    ∃ token : Token, lastSegment lead content line = .token token ∧ token.line = line ∧
      token.literalValue? = some (Value.ofQuoted content) := by
  unfold lastSegment Value.ofQuoted
  by_cases htrue : content = "TRUE".toList
  · rw [if_pos htrue, if_pos htrue]
    exact ⟨_, rfl, rfl, rfl⟩
  by_cases hfalse : content = "FALSE".toList
  · rw [if_neg htrue, if_neg htrue, if_pos hfalse, if_pos hfalse]
    exact ⟨_, rfl, rfl, rfl⟩
  · rw [if_neg htrue, if_neg htrue, if_neg hfalse, if_neg hfalse, lineEnds_eq_self hcontent]
    exact ⟨_, rfl, rfl, rfl⟩

end Source

namespace Expr

open BeginCode.Source (quoted)

/-- What has been opened is closed by the rest of the literal. An open segment has no symbol in it,
and one without any characters has begun on the current line. -/
theorem Opening.exists_quoted {body : List Char} (hquote : '"' ∉ body) {front : List Token}
    {shown : Option String} {wrap : Expr → Expr} {lead content : List Char} {start line : Nat}
    (hopening : Opening front start shown wrap) (hcontent : '$' ∉ content)
    (hstart : lead = [] → content = [] → line = start) (rest : List Token) :
    ∃ expr, Derives .product
        (front ++ ((quoted lead content start line (body ++ ['"'])).tokens ++ rest)) expr rest ∧
      expr.Evaluates (joined shown (Value.ofQuoted (content.reverse ++ body))) := by
  -- The open segment and what is opened change along the text, so all of them are general.
  induction body generalizing front shown wrap lead content start line with
  | nil =>
      have hreversed : '$' ∉ content.reverse := by rwa [List.mem_reverse]
      obtain ⟨token, htoken, hline, hvalue⟩ := Source.exists_lastSegment hreversed lead start
      refine ⟨_, ?_, hopening.evaluates (evaluates_literal _ token.line)⟩
      rw [List.nil_append, quoted, Source.Step.tokens, htoken, List.append_nil]
      exact hopening.derives_literal hvalue hline.le rest
  | cons c body ih =>
      rw [List.mem_cons, not_or] at hquote
      obtain ⟨hc, hquote⟩ := hquote
      rw [List.cons_append]
      by_cases hbreak : c = '$'
      · subst hbreak
        have hreversed : '$' ∉ content.reverse := by rwa [List.mem_reverse]
        rw [Source.quoted_lineBreak, joined_ofQuoted shown hreversed]
        have hkind : (Source.lineBreakAt line).kind = .lineBreak := rfl
        by_cases hnone : lead = [] ∧ content = []
        · -- Two symbols with nothing between them: no token for the empty segment.
          obtain ⟨rfl, rfl⟩ := hnone
          have hnext := hopening.lineBreak hkind (hstart rfl rfl).le
          obtain ⟨expr, hderives, hevaluates⟩ := ih hquote hnext List.not_mem_nil fun _ _ => rfl
          rw [List.append_assoc] at hderives
          rw [List.reverse_nil, String.ofList_nil, String.append_empty]
          exact ⟨expr, hderives, hevaluates⟩
        · have hsome : ¬(lead = [] ∧ content.reverse = []) := by
            rwa [List.reverse_eq_nil_iff]
          obtain ⟨token, htoken, hline, hvalue⟩ := Source.exists_segment hsome start
          have hnext := hopening.segment hvalue hline.le hkind
          obtain ⟨expr, hderives, hevaluates⟩ := ih hquote hnext List.not_mem_nil fun _ _ => rfl
          rw [List.append_assoc] at hderives
          rw [htoken]
          exact ⟨expr, hderives, hevaluates⟩
      · have hmore : '$' ∉ c :: content := by
          rw [List.mem_cons, not_or]
          exact ⟨Ne.symm hbreak, hcontent⟩
        obtain ⟨expr, hderives, hevaluates⟩ := ih hquote hopening hmore (by simp)
        rw [List.reverse_cons, List.append_assoc] at hevaluates
        rw [Source.quoted_other (Ne.symm hc) hbreak]
        exact ⟨expr, hderives, hevaluates⟩

end Expr

theorem scan_quoted {body : String} (hbody : '"' ∉ body.toList) :
    scan ("\"" ++ body ++ "\"") =
      ⟨(Source.quoted ['"'] [] 1 1 (body.toList ++ ['"'])).pieces,
        (Source.quoted ['"'] [] 1 1 (body.toList ++ ['"'])).line⟩ := by
  have hsource : ("\"" ++ body ++ "\"").toList = '"' :: (body.toList ++ ['"']) := by
    simp
  have hstep : ∀ rest, Source.step 1 '"' rest = Source.quoted ['"'] [] 1 1 rest := fun _ => rfl
  have hrest := (Source.quoted_closed hbody ['"'] [] 1 1).1
  rw [scan, hsource, Source.pieces, hstep, hrest, Source.pieces, List.append_nil]

/-- A literal is scanned without an error and read as one expression up to the end of input, and
this evaluates to its text with a line end for each line-break symbol, or to the truth value that it
spells. -/
theorem Expr.read_quoted {body : String} (hbody : '"' ∉ body.toList) (cursor : Cursor) :
    (scan ("\"" ++ body ++ "\"")).errors = [] ∧
      ∃ expr used last, (scan ("\"" ++ body ++ "\"")).tokens = used ++ [last] ∧
        last.kind = .endOfInput ∧
        Expr.read.run (cursor.goTo (used ++ [last])) = .ok expr (cursor.goTo [last]) ∧
        ∀ environment, expr.eval.run environment =
          .ok (Value.ofQuoted body.toList) environment := by
  rw [scan_quoted hbody]
  refine ⟨(Source.quoted_closed hbody ['"'] [] 1 1).2, ?_⟩
  generalize hfound : Source.quoted ['"'] [] 1 1 (body.toList ++ ['"']) = found
  let last : Token := { kind := .endOfInput, lexeme := "", line := found.line }
  obtain ⟨expr, hderives, hevaluates⟩ :
      ∃ expr, Derives .product (found.tokens ++ [last]) expr [last] ∧
        expr.Evaluates (Value.ofQuoted body.toList) := by
    rw [← hfound]
    exact (opening_start 1).exists_quoted hbody List.not_mem_nil (by simp) [last]
  have hspelled : Spelled (found.tokens ++ [last]) expr [last] :=
    ⟨hderives.loosenTo (by decide), rfl⟩
  have hfollows : (readWithin (found.tokens ++ [last]).length).Follows
      (cursor.goTo (found.tokens ++ [last])) Spelled := follows_readWithin le_rfl
  exact ⟨expr, found.tokens, last, rfl, rfl,
    (hfollows.reads_iff.mpr ⟨[last], hspelled, rfl⟩).1, hevaluates⟩

/-- Symbols at both ends and side by side, a line end, and a truth value after a symbol. -/
theorem Expr.read_quoted_breaks :
    '"' ∉ "$a\n$$TRUE$".toList ∧
      ∃ expr later, Expr.read.run { rest := (scan "\"$a\n$$TRUE$\"").tokens } = .ok expr later ∧
        expr.eval.run .root = .ok (.text "\na\n\n\nTRUE\n") .root := by
  have hbody : '"' ∉ "$a\n$$TRUE$".toList := by decide
  obtain ⟨-, expr, used, last, htokens, -, hread, heval⟩ := Expr.read_quoted hbody { rest := [] }
  rw [← htokens] at hread
  exact ⟨hbody, expr, _, hread, heval .root⟩

end BeginCode
