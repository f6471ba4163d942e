import BeginCode.Expr.Eval
import BeginCode.Proofs.ExprYield
import Mathlib.Data.List.Chain

/-!
# Text expressions

Operands with `&` and the line-break symbol `$` between and around them. The symbol can be an
operator between two operands, one with nothing to its right, a prefix operator or an operand, so
that the shape of the tree depends on every neighbour of every symbol. The value does not: it is the
text of the tokens one after the other, with a line end for each symbol.

The two halves are independent. Whatever tree has these tokens, evaluating it joins their texts in
order; and the reader finds such a tree, because after each token it can go on with the next one.
-/

namespace BeginCode

open BeginCode.Token (Kind)
open BeginCode.Expr (Level)

namespace Token

/-- The value of an operand: that of a literal, or of a variable in the environment. -/
def operandValue? (environment : Environment) (token : Token) : Option Value :=
  match token.kind with
  | .identifier => (environment.find? token.lexeme).map Binding.value
  | _ => token.literalValue?

def IsOperand (environment : Environment) (token : Token) : Prop :=
  (token.operandValue? environment).isSome

instance (environment : Environment) (token : Token) : Decidable (token.IsOperand environment) :=
  inferInstanceAs (Decidable (_ = true))

/-- A token of a text expression. -/
def IsPiece (environment : Environment) (token : Token) : Prop :=
  token.IsOperand environment ∨ token.kind = .ampersand ∨ token.kind = .lineBreak

instance (environment : Environment) (token : Token) : Decidable (token.IsPiece environment) :=
  inferInstanceAs (Decidable (_ ∨ _))

/-- What a token adds to the text. -/
def shown (environment : Environment) (token : Token) : String :=
  match token.kind with
  | .ampersand => ""
  | .lineBreak => "\n"
  | _ => ((token.operandValue? environment).map Value.display).getD ""

/-- Whether the second token may stand right after the first one: two operands are never adjacent,
nor are two `&`, and what follows a `$` is on its line. -/
def Adjoins (environment : Environment) (first second : Token) : Prop :=
  ¬(first.IsOperand environment ∧ second.IsOperand environment) ∧
    ¬(first.kind = .ampersand ∧ second.kind = .ampersand) ∧
    (first.kind = .lineBreak → second.line ≤ first.line + 1)

instance (environment : Environment) (first second : Token) :
    Decidable (first.Adjoins environment second) :=
  inferInstanceAs (Decidable (_ ∧ _))

end Token

/-- The texts of tokens in order. -/
def shownText (environment : Environment) (tokens : List Token) : String :=
  String.join (tokens.map (·.shown environment))

/-- Tokens of a text expression that is not over before its last token and does not go on with
`rest`. -/
structure Joinable (environment : Environment) (tokens rest : List Token) : Prop where
  pieces : ∀ token ∈ tokens, token.IsPiece environment
  chain : tokens.IsChain (Token.Adjoins environment)
  last : ∀ token ∈ tokens.getLast?, token.kind ≠ .ampersand
  /-- A `$` at the end has no operand. -/
  ends : ∀ token ∈ tokens.getLast?, token.kind = .lineBreak → token.hasOperand rest = false

/-- A whole text expression: since no `&` is first or last and no two are adjacent, each of them has
an operand or a `$` on both sides. -/
structure Textual (environment : Environment) (tokens rest : List Token) : Prop
    extends Joinable environment tokens rest where
  first : ∀ token ∈ tokens.head?, token.kind ≠ .ampersand
  joins : ∃ token ∈ tokens, token.kind = .ampersand ∨ token.kind = .lineBreak
  /-- What follows is no operator between two operands. -/
  closed : (rest.headD .pastEnd).kind.operatorLevel? = none

/-! ### What a tree evaluates to -/

namespace Token

/-- The kinds of operands, `&` and `$`. -/
def Kind.isPiece : Kind → Bool
  | kwTrue | kwFalse | kwNil | integer | float | charLiteral | text | escape | identifier => true
  | ampersand | lineBreak => true
  | _ => false

variable {environment : Environment} {token : Token}

theorem not_isOperand (hkind : token.kind = .ampersand ∨ token.kind = .lineBreak) :
    ¬token.IsOperand environment := by
  rcases hkind with hkind | hkind <;> simp [IsOperand, operandValue?, literalValue?, hkind]

theorem kind_ne_of_literal {value : Value} (hvalue : token.literalValue? = some value) :
    ¬(token.kind = .ampersand ∨ token.kind = .lineBreak) := by
  rintro (hkind | hkind) <;> simp [literalValue?, hkind] at hvalue

theorem IsPiece.isOperand (hpiece : token.IsPiece environment)
    (hkind : ¬(token.kind = .ampersand ∨ token.kind = .lineBreak)) :
    token.IsOperand environment :=
  hpiece.resolve_right hkind

theorem IsOperand.exists_binding (hoperand : token.IsOperand environment)
    (hname : token.kind = .identifier) :
    ∃ binding, environment.find? token.lexeme = some binding := by
  rw [IsOperand, operandValue?, hname] at hoperand
  dsimp only at hoperand
  rw [Option.isSome_map] at hoperand
  exact Option.isSome_iff_exists.mp hoperand

theorem shown_literal {value : Value} (hvalue : token.literalValue? = some value) :
    token.shown environment = value.display := by
  unfold literalValue? at hvalue
  split at hvalue <;> simp_all [shown, operandValue?, literalValue?]

theorem shown_name {binding : Binding} (hname : token.kind = .identifier)
    (hfind : environment.find? token.lexeme = some binding) :
    token.shown environment = binding.value.display := by
  simp [shown, operandValue?, hname, hfind]

theorem shown_join {op : JoinOp} (hkind : token.kind = op.kind) :
    token.shown environment = op.between := by
  rw [shown, hkind]
  cases op <;> rfl

theorem IsPiece.isPiece_kind (hpiece : token.IsPiece environment) : token.kind.isPiece = true := by
  rcases hpiece with hoperand | hkind | hkind
  · unfold IsOperand operandValue? literalValue? at hoperand
    split at hoperand
    · simp [*, Kind.isPiece]
    · split at hoperand <;> simp_all [Kind.isPiece]
  · rw [hkind]
    rfl
  · rw [hkind]
    rfl

theorem not_isPiece {kind : Kind} (hkind : token.kind = kind) (hother : kind.isPiece = false) :
    ¬token.IsPiece environment := by
  intro hpiece
  have hpiece := hpiece.isPiece_kind
  rw [hkind, hother] at hpiece
  cases hpiece

/-- The only operators between two operands in a text expression. -/
theorem IsPiece.exists_join (hpiece : token.IsPiece environment) {op : BinaryOp}
    (hkind : token.kind = op.kind) : ∃ join, op = .join join := by
  rcases op with op | op | op | op
  · exact absurd hpiece (not_isPiece hkind (by cases op <;> rfl))
  · exact absurd hpiece (not_isPiece hkind (by cases op <;> rfl))
  · exact absurd hpiece (not_isPiece hkind (by cases op <;> rfl))
  · exact ⟨op, rfl⟩

theorem IsPiece.eq_lineBreak (hpiece : token.IsPiece environment) {op : UnaryOp}
    (hkind : token.kind = op.kind) : op = .lineBreak := by
  cases op with
  | lineBreak => rfl
  | _ => exact absurd hpiece (not_isPiece hkind rfl)

end Token

theorem shownText_append (environment : Environment) (front back : List Token) :
    shownText environment (front ++ back) =
      shownText environment front ++ shownText environment back := by
  rw [shownText, List.map_append, String.join_append]
  rfl

theorem shownText_cons (environment : Environment) (token : Token) (tokens : List Token) :
    shownText environment (token :: tokens) =
      token.shown environment ++ shownText environment tokens := by
  rw [shownText, List.map_cons, String.join_cons]
  rfl

theorem shownText_singleton (environment : Environment) (token : Token) :
    shownText environment [token] = token.shown environment := by
  rw [shownText_cons]
  exact String.append_empty

namespace Expr

/-- The expression has a value that displays as the texts of the tokens, and changes nothing. It is
a text if there is anything to join. -/
def Shows (environment : Environment) (tokens : List Token) (expr : Expr) : Prop :=
  ∃ value, expr.eval.run environment = .ok value environment ∧
    value.display = shownText environment tokens ∧
    ((∃ token ∈ tokens, token.kind = .ampersand ∨ token.kind = .lineBreak) →
      value = .text (shownText environment tokens))

section Shows

variable {environment : Environment}

theorem shows_text {tokens : List Token} {expr : Expr}
    (heval : expr.eval.run environment =
      .ok (.text (shownText environment tokens)) environment) :
    Shows environment tokens expr :=
  ⟨_, heval, rfl, fun _ => rfl⟩

theorem shows_operand {token : Token} {expr : Expr} {value : Value}
    (hoperand : token.IsOperand environment) (hvalue : token.shown environment = value.display)
    (heval : expr.eval.run environment = .ok value environment) :
    Shows environment [token] expr := by
  refine ⟨value, heval, ?_, ?_⟩
  · rw [shownText_singleton, hvalue]
  · rintro ⟨other, hmem, hkind⟩
    rw [List.mem_singleton.mp hmem] at hkind
    exact absurd hoperand (Token.not_isOperand hkind)

theorem Shows.lineBreak {symbol : Token} {tokens : List Token} {operand : Expr}
    (hkind : symbol.kind = .lineBreak) (hoperand : Shows environment tokens operand) :
    Shows environment (symbol :: tokens) (.unary .lineBreak operand symbol.line) := by
  obtain ⟨value, heval, hdisplay, -⟩ := hoperand
  have hsymbol : symbol.shown environment = "\n" := by rw [Token.shown, hkind]
  apply shows_text
  rw [shownText_cons, hsymbol, ← hdisplay, eval, EStateM.run_bind, heval]
  rfl

theorem Shows.join {operator : Token} {front back : List Token} {left right : Expr} {op : JoinOp}
    (hkind : operator.kind = op.kind) (hleft : Shows environment front left)
    (hright : Shows environment back right) :
    Shows environment (front ++ operator :: back)
      (.binary (.join op) left right operator.line) := by
  obtain ⟨first, hfirst, hfirstText, -⟩ := hleft
  obtain ⟨second, hsecond, hsecondText, -⟩ := hright
  apply shows_text
  rw [shownText_append, shownText_cons, Token.shown_join hkind, ← hfirstText, ← hsecondText, eval,
    EStateM.run_bind, hfirst]
  dsimp only
  rw [EStateM.run_bind, hsecond, ← String.append_assoc]
  rfl

/-- Whatever its shape, a tree of operands, `&` and `$` shows the texts of its tokens in order. -/
theorem Yields.shows {tokens rest : List Token} {expr : Expr} (hyields : Yields tokens expr rest)
    (hpieces : ∀ token ∈ tokens, token.IsPiece environment) : Shows environment tokens expr := by
  induction hyields with
  | @literal token _ value hvalue =>
      have hoperand : token.IsOperand environment :=
        (hpieces token List.mem_cons_self).isOperand (Token.kind_ne_of_literal hvalue)
      exact shows_operand hoperand (Token.shown_literal hvalue) rfl
  | @lineBreak symbol _ hkind _ =>
      apply shows_text
      rw [shownText_singleton, Token.shown, hkind]
      rfl
  | @named name _ hname =>
      have hoperand : name.IsOperand environment :=
        (hpieces name List.mem_cons_self).isOperand (by simp [hname])
      obtain ⟨binding, hfind⟩ := hoperand.exists_binding hname
      refine shows_operand hoperand (Token.shown_name hname hfind) ?_
      rw [eval, EStateM.run_bind, Eval.run_lookup, Environment.lookup, hfind]
      rfl
  | grouping hopening _ _ _ =>
      exact absurd (hpieces _ List.mem_cons_self) (Token.not_isPiece hopening rfl)
  | @unary operator _ _ op _ hkind _ _ ih =>
      obtain rfl := (hpieces operator List.mem_cons_self).eq_lineBreak hkind
      exact Shows.lineBreak hkind (ih fun token hmem => hpieces token (List.mem_cons_of_mem _ hmem))
  | @binary operator front back _ op _ _ _ hkind _ _ ihLeft ihRight =>
      rw [List.forall_mem_append, List.forall_mem_cons] at hpieces
      obtain ⟨hfront, hoperator, hback⟩ := hpieces
      obtain ⟨join, rfl⟩ := hoperator.exists_join hkind
      exact (ihLeft hfront).join hkind (ihRight hback)
  | @binaryNothing symbol front _ _ _ hkind _ ih =>
      have hnothing : Shows environment [] (.literal (.text "") symbol.line) := shows_text rfl
      exact (ih fun token hmem => hpieces token (List.mem_append_left _ hmem)).join hkind hnothing
  | @logical operator front back _ op _ _ _ hkind _ _ _ =>
      rw [List.forall_mem_append, List.forall_mem_cons] at hpieces
      exact absurd hpieces.2.1 (Token.not_isPiece hkind (by cases op <;> rfl))
  | assign _ hequals _ _ =>
      exact absurd (hpieces _ (List.mem_cons_of_mem _ List.mem_cons_self))
        (Token.not_isPiece hequals rfl)

end Shows

end Expr

/-! ### How a tree is found -/

namespace Token

variable {environment : Environment} {token : Token}

theorem IsOperand.exists_derives (hoperand : token.IsOperand environment) (rest : List Token) :
    ∃ expr, Expr.Derives .operand (token :: rest) expr rest := by
  by_cases hname : token.kind = .identifier
  · exact ⟨_, .named hname⟩
  · have hvalue : token.operandValue? environment = token.literalValue? := by
      unfold operandValue?
      split
      · exact absurd ‹_› hname
      · rfl
    rw [IsOperand, hvalue] at hoperand
    obtain ⟨value, hvalue⟩ := Option.isSome_iff_exists.mp hoperand
    exact ⟨_, .literal hvalue⟩

/-- All pieces but `&` can begin an operand. -/
theorem IsPiece.beginsOperand_iff (hpiece : token.IsPiece environment) :
    token.kind.beginsOperand = true ↔ token.kind ≠ .ampersand := by
  have hpiece := hpiece.isPiece_kind
  generalize token.kind = kind at hpiece ⊢
  cases kind <;> cases hpiece <;> decide

end Token

namespace Joinable

variable {environment : Environment} {token : Token} {tokens rest : List Token}

theorem tail (hjoinable : Joinable environment (token :: tokens) rest) :
    Joinable environment tokens rest := by
  have hlast : ∀ last ∈ tokens.getLast?, last ∈ (token :: tokens).getLast? := by
    intro last hmem
    rw [List.getLast?_cons, Option.mem_def.mp hmem]
    rfl
  exact ⟨fun other hmem => hjoinable.pieces other (List.mem_cons_of_mem _ hmem),
    hjoinable.chain.tail, fun last hmem => hjoinable.last last (hlast last hmem),
    fun last hmem => hjoinable.ends last (hlast last hmem)⟩

theorem adjoins (hjoinable : Joinable environment (token :: tokens) rest) :
    ∀ next ∈ tokens.head?, token.Adjoins environment next :=
  (List.isChain_cons.mp hjoinable.chain).1

/-- After `&` there is something to join. -/
theorem after_ampersand (hjoinable : Joinable environment (token :: tokens) rest)
    (hkind : token.kind = .ampersand) :
    ∃ next others, tokens = next :: others ∧ next.kind ≠ .ampersand := by
  cases tokens with
  | nil => exact absurd hkind (hjoinable.last token rfl)
  | cons next others =>
      exact ⟨next, others, rfl, fun hnext => (hjoinable.adjoins next rfl).2.1 ⟨hkind, hnext⟩⟩

/-- A `$` with an operand is followed by something else than `&`. -/
theorem after_symbol (hjoinable : Joinable environment (token :: tokens) rest)
    (hkind : token.kind = .lineBreak) (hoperand : token.hasOperand (tokens ++ rest) = true) :
    ∃ next others, tokens = next :: others ∧ next.kind ≠ .ampersand := by
  cases tokens with
  | nil =>
      rw [List.nil_append, hjoinable.ends token rfl hkind] at hoperand
      cases hoperand
  | cons next others =>
      rw [Token.hasOperand, Bool.and_eq_true] at hoperand
      have hpiece := hjoinable.pieces next (List.mem_cons_of_mem _ List.mem_cons_self)
      exact ⟨next, others, rfl, hpiece.beginsOperand_iff.mp hoperand.2⟩

/-- A `$` without an operand is followed by `&` or nothing. -/
theorem after_lone_symbol (hjoinable : Joinable environment (token :: tokens) rest)
    (hkind : token.kind = .lineBreak) (hnothing : token.hasOperand (tokens ++ rest) = false) :
    ∀ next ∈ tokens.head?, ¬next.IsOperand environment := by
  intro next hnext hoperand
  have hline := (hjoinable.adjoins next hnext).2.2 hkind
  obtain ⟨others, rfl⟩ : ∃ others, tokens = next :: others := List.head?_eq_some_iff.mp hnext
  have hpiece := hjoinable.pieces next (List.mem_cons_of_mem _ List.mem_cons_self)
  have hbegins : next.kind.beginsOperand = true :=
    hpiece.beginsOperand_iff.mpr fun hampersand =>
      Token.not_isOperand (.inl hampersand) hoperand
  simp [Token.hasOperand, hline, hbegins] at hnothing

/-- Where an operand is to come, one is found, and no other operand follows it. -/
theorem exists_prefixed (hjoinable : Joinable environment (token :: tokens) rest)
    (hkind : token.kind ≠ .ampersand) :
    ∃ expr left, Expr.Derives .prefixed (token :: tokens ++ rest) expr (left ++ rest) ∧
      Joinable environment left rest ∧ (∀ next ∈ left.head?, ¬next.IsOperand environment) ∧
      left.length ≤ tokens.length := by
  induction hsize : tokens.length using Nat.strong_induction_on generalizing token tokens with
  | _ size ih =>
    subst hsize
    rcases hjoinable.pieces token List.mem_cons_self with hoperand | hampersand | hsymbol
    · obtain ⟨expr, hderives⟩ := hoperand.exists_derives (tokens ++ rest)
      refine ⟨expr, tokens, .loosen (by decide) hderives, hjoinable.tail, ?_, le_rfl⟩
      intro next hnext hother
      exact (hjoinable.adjoins next hnext).1 ⟨hoperand, hother⟩
    · exact absurd hampersand hkind
    · cases hfollows : token.hasOperand (tokens ++ rest) with
      | false =>
          exact ⟨_, tokens, .lineBreak hsymbol hfollows, hjoinable.tail,
            hjoinable.after_lone_symbol hsymbol hfollows, le_rfl⟩
      | true =>
          obtain ⟨next, others, rfl, hnext⟩ := hjoinable.after_symbol hsymbol hfollows
          have hshorter : others.length < (next :: others).length := Nat.lt_succ_self _
          obtain ⟨operand, left, hoperand, hleft, hhead, hlength⟩ :=
            ih others.length hshorter hjoinable.tail hnext rfl
          have hprefixed : Expr.prefixed? token.kind = some .lineBreak := by
            rw [hsymbol]
            rfl
          exact ⟨_, left, .prefixed hprefixed (fun _ => hfollows) hoperand, hleft, hhead,
            hlength.trans hshorter.le⟩

/-- After an operand the reader gets through to the end. `start` is where the product began that has
been read so far, and whatever stands there as a product completes a sum. -/
theorem exists_sum {whole start left : List Token} {product : Expr}
    (hjoinable : Joinable environment left rest)
    (hhead : ∀ next ∈ left.head?, ¬next.IsOperand environment)
    (hsum : ∀ {expr more}, Expr.Derives .product start expr more →
      ∃ sum, Expr.Derives .sum whole sum more)
    (hproduct : Expr.Derives .product start product (left ++ rest)) :
    ∃ sum, Expr.Derives .sum whole sum rest := by
  induction hsize : left.length using Nat.strong_induction_on generalizing start left product with
  | _ size ih =>
    subst hsize
    rcases left with _ | ⟨token, tokens⟩
    · exact hsum hproduct
    have hshorter {left : List Token} (hlength : left.length ≤ tokens.length) :
        left.length < (token :: tokens).length := Nat.lt_succ_of_le hlength
    rcases hjoinable.pieces token List.mem_cons_self with hoperand | hampersand | hsymbol
    · exact absurd hoperand (hhead token rfl)
    · have hlevel : token.kind.operatorLevel? = some .sum := by
        rw [hampersand]
        rfl
      have hjoin : token.kind.join? = some (.binary (.join .concat)) := by
        rw [hampersand]
        rfl
      obtain ⟨before, hbefore⟩ := hsum hproduct
      obtain ⟨next, others, rfl, hnext⟩ := hjoinable.after_ampersand hampersand
      obtain ⟨operand, left, hoperand, hleft, hlast, hlength⟩ :=
        hjoinable.tail.exists_prefixed hnext
      -- A product after `&` is the right operand of all that has been read before.
      have hafter {expr : Expr} {more : List Token}
          (hexpr : Expr.Derives .product (next :: others ++ rest) expr more) :
          ∃ sum, Expr.Derives .sum whole sum more :=
        ⟨_, .join hbefore hlevel hjoin (by simp [hampersand]) hexpr⟩
      exact ih left.length (hshorter (hlength.trans (Nat.le_succ _))) hleft hlast hafter
        (.loosen (by decide) hoperand) rfl
    · have hlevel : token.kind.operatorLevel? = some .product := by
        rw [hsymbol]
        rfl
      have hjoin : token.kind.join? = some (.binary (.join .lineBreak)) := by
        rw [hsymbol]
        rfl
      cases hfollows : token.hasOperand (tokens ++ rest) with
      | false =>
          exact ih tokens.length (hshorter le_rfl) hjoinable.tail
            (hjoinable.after_lone_symbol hsymbol hfollows) hsum
            (.joinNothing hproduct hsymbol hfollows) rfl
      | true =>
          obtain ⟨next, others, rfl, hnext⟩ := hjoinable.after_symbol hsymbol hfollows
          obtain ⟨operand, left, hoperand, hleft, hlast, hlength⟩ :=
            hjoinable.tail.exists_prefixed hnext
          exact ih left.length (hshorter (hlength.trans (Nat.le_succ _))) hleft hlast hsum
            (.join hproduct hlevel hjoin (fun _ => hfollows) hoperand) rfl

end Joinable

namespace Expr

/-- A text expression is read as a whole, and its value is the text of its tokens in order. -/
theorem read_textual {environment : Environment} {tokens rest : List Token}
    (htextual : Textual environment tokens rest) (cursor : Cursor) :
    ∃ expr, read.run (cursor.goTo (tokens ++ rest)) = .ok expr (cursor.goTo rest) ∧
      expr.eval.run environment = .ok (.text (shownText environment tokens)) environment := by
  obtain ⟨expr, hderives⟩ : ∃ expr, Derives .sum (tokens ++ rest) expr rest := by
    rcases tokens with _ | ⟨token, others⟩
    · obtain ⟨token, hmem, -⟩ := htextual.joins
      cases hmem
    · obtain ⟨operand, left, hoperand, hleft, hhead, -⟩ :=
        htextual.toJoinable.exists_prefixed (htextual.first token rfl)
      exact hleft.exists_sum hhead (fun hproduct => ⟨_, .loosen (by decide) hproduct⟩)
        (.loosen (by decide) hoperand)
  have hspelled : Spelled (tokens ++ rest) expr rest :=
    ⟨hderives.loosenTo (by decide), Level.not_continues_of_none htextual.closed⟩
  obtain ⟨used, hused, hyields⟩ := hderives.exists_yields
  obtain rfl := List.append_cancel_right hused
  obtain ⟨value, heval, -, htext⟩ := hyields.shows htextual.pieces
  rw [htext htextual.joins] at heval
  exact ⟨expr, hspelled.run_read cursor, heval⟩

/-- `$$ x & $ & 'c' $$ n & 2 $` -/
def signs : List Token :=
  [.fixed 1 .lineBreak "$", .fixed 2 .lineBreak "$", ⟨.identifier, "x", 3, none⟩,
    .fixed 3 .ampersand "&", .fixed 3 .lineBreak "$", .fixed 4 .ampersand "&",
    ⟨.charLiteral, "'c'", 4, some (.char 'c')⟩, .fixed 4 .lineBreak "$", .fixed 5 .lineBreak "$",
    ⟨.identifier, "n", 6, none⟩, .fixed 6 .ampersand "&", ⟨.integer, "2", 6, some (.integer 2)⟩,
    .fixed 6 .lineBreak "$"]

/-- One of the variables has no value yet. -/
def signing : Environment :=
  ⟨[⟨[("n", ⟨.int, .nil⟩)]⟩, ⟨[("x", ⟨.string, .text "hi"⟩), ("n", ⟨.char, .char 'o'⟩)]⟩]⟩

/-- Symbols before, between and after the operands, with the end of the program on the line of the
last one. -/
theorem read_textual_signs :
    ∃ expr, read.run { rest := signs ++ [.fixed 7 .kwEnd "END"] } =
        .ok expr { rest := [.fixed 7 .kwEnd "END"] } ∧
      expr.eval.run signing = .ok (.text "\n\nhi\nc\n\nnil2\n") signing := by
  have htextual : Textual signing signs [.fixed 7 .kwEnd "END"] :=
    { pieces := by decide
      chain := by decide
      last := by decide
      ends := by decide
      first := by decide
      joins := by decide
      closed := rfl }
  exact read_textual htextual { rest := [] }

end Expr

end BeginCode
