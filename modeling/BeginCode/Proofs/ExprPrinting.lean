import BeginCode.Proofs.ExprGrammar

/-!
# Printing expressions

An expression is printed on one line, token by token and without parentheses of its own. If it fits
its level, as every expression that is read does, what is printed stands for it in the grammar.
-/

namespace BeginCode

open BeginCode.Expr (Level)

def ArithmeticOp.kind : ArithmeticOp → Token.Kind
  | add => .plus
  | sub => .minus
  | mul => .star
  | div => .slash
  | mod => .percent

def OrderOp.kind : OrderOp → Token.Kind
  | less => .less
  | lessEqual => .lessEqual
  | greater => .greater
  | greaterEqual => .greaterEqual

def EqualityOp.kind : EqualityOp → Token.Kind
  | equal => .equalEqual
  | notEqual => .notEqual

def JoinOp.kind : JoinOp → Token.Kind
  | concat => .ampersand
  | lineBreak => .lineBreak

def BinaryOp.kind : BinaryOp → Token.Kind
  | arithmetic op => op.kind
  | order op => op.kind
  | equality op => op.kind
  | join op => op.kind

def LogicalOp.kind : LogicalOp → Token.Kind
  | and => .kwAnd
  | or => .kwOr

def UnaryOp.kind : UnaryOp → Token.Kind
  | not => .kwNot
  | negate => .minus
  | plus => .plus
  | lineBreak => .lineBreak

/-- How tight an operator binds. The line-break symbol binds like a product. -/
def BinaryOp.level : BinaryOp → Level
  | arithmetic .add | arithmetic .sub | join .concat => .sum
  | arithmetic .mul | arithmetic .div | arithmetic .mod | join .lineBreak => .product
  | order _ => .order
  | equality _ => .equality

def LogicalOp.level : LogicalOp → Level
  | and => .conjunction
  | or => .disjunction

/-- The literal token of a value. -/
def Value.token (line : Nat) : Value → Token
  | nil => ⟨.kwNil, "NIL", line, none⟩
  | bool true => ⟨.kwTrue, "TRUE", line, none⟩
  | bool false => ⟨.kwFalse, "FALSE", line, none⟩
  | integer n => ⟨.integer, (Value.integer n).display, line, some (.integer n)⟩
  | float x => ⟨.float, (Value.float x).display, line, some (.float x)⟩
  | char c => ⟨.charLiteral, (Value.char c).display, line, some (.char c)⟩
  | text s => ⟨.text, s, line, some (.text s)⟩

/-- A keyword or symbol on a line. -/
def Token.fixed (line : Nat) (kind : Token.Kind) (lexeme : String) : Token :=
  ⟨kind, lexeme, line, none⟩

def Token.onLine (line : Nat) (token : Token) : Token := { token with line }

namespace Expr

/-- The expression with every part of it on one line. -/
def onLine (line : Nat) : Expr → Expr
  | literal value _ => .literal value line
  | grouping inner _ => .grouping (inner.onLine line) line
  | unary op operand _ => .unary op (operand.onLine line) line
  | binary op left right _ => .binary op (left.onLine line) (right.onLine line) line
  | logical op left right _ => .logical op (left.onLine line) (right.onLine line) line
  | .variable name => .variable (name.onLine line)
  | assign name value => .assign (name.onLine line) (value.onLine line)

def print (line : Nat) : Expr → List Token
  | literal value _ => [value.token line]
  | grouping inner _ =>
      .fixed line .leftParen "(" :: (inner.print line ++ [.fixed line .rightParen ")"])
  | unary op operand _ => .fixed line op.kind op.symbol :: operand.print line
  | binary op left right _ =>
      left.print line ++ .fixed line op.kind op.symbol :: right.print line
  | logical op left right _ =>
      left.print line ++ .fixed line op.kind op.symbol :: right.print line
  | .variable name => [name.onLine line]
  | assign name value => name.onLine line :: .fixed line .equals "=" :: value.print line

/-- Whether an expression needs no parentheses on a level: its operators bind at least as tight, and
so do their operands, the right one tighter. -/
def fits : Level → Expr → Bool
  | _, literal _ _ => true
  | _, grouping inner _ => inner.fits .assignment
  | level, unary _ operand _ => level.rank ≤ Level.prefixed.rank && operand.fits .prefixed
  | level, binary op left right _ =>
      level.rank ≤ op.level.rank && left.fits op.level && right.fits op.level.tighter
  | level, logical op left right _ =>
      level.rank ≤ op.level.rank && left.fits op.level && right.fits op.level.tighter
  | _, .variable name => name.kind = .identifier
  | level, assign name value =>
      level = .assignment && name.kind = .identifier && value.fits .assignment

end Expr

theorem BinaryOp.operatorLevel?_kind (op : BinaryOp) : op.kind.operatorLevel? = some op.level := by
  rcases op with op | op | op | op <;> cases op <;> rfl

theorem BinaryOp.join?_kind (op : BinaryOp) : op.kind.join? = some (.binary op) := by
  rcases op with op | op | op | op <;> cases op <;> rfl

theorem LogicalOp.operatorLevel?_kind (op : LogicalOp) :
    op.kind.operatorLevel? = some op.level := by
  cases op <;> rfl

theorem LogicalOp.join?_kind (op : LogicalOp) : op.kind.join? = some (.logical op) := by
  cases op <;> rfl

theorem UnaryOp.prefixed?_kind (op : UnaryOp) : Expr.prefixed? op.kind = some op := by
  cases op <;> rfl

theorem Value.literalValue?_token (value : Value) (line : Nat) :
    (value.token line).literalValue? = some value := by
  rcases value with _ | _ | _ | _ | (_ | _) | _ <;> rfl

theorem Value.line_token (value : Value) (line : Nat) : (value.token line).line = line := by
  rcases value with _ | _ | _ | _ | (_ | _) | _ <;> rfl

namespace Expr

theorem Level.rank_le_operand (level : Level) : level.rank ≤ Level.operand.rank := by
  cases level <;> decide

theorem Level.rank_tighter {level : Level} (hlevel : level ≠ .operand) :
    level.tighter.rank = level.rank + 1 := by
  cases level with
  | operand => exact absurd rfl hlevel
  | _ => rfl

theorem Level.eq_of_rank_eq {level other : Level} (hrank : level.rank = other.rank) :
    level = other := by
  cases level <;> cases other <;> first | rfl | cases hrank

/-- An expression of a level stands on every looser level. -/
theorem Derives.loosenTo {level tight : Level} {tokens rest : List Token} {expr : Expr}
    (hderives : Derives tight tokens expr rest) (hrank : level.rank ≤ tight.rank) :
    Derives level tokens expr rest := by
  induction hgap : tight.rank - level.rank generalizing level with
  | zero =>
      obtain rfl : level = tight := Level.eq_of_rank_eq (by omega)
      exact hderives
  | succ gap ih =>
      have hlevel : level ≠ .operand := by
        rintro rfl
        have := tight.rank_le_operand
        omega
      have hnext := Level.rank_tighter hlevel
      exact .loosen hlevel (ih (by omega) (by omega))

theorem line_head_print (expr : Expr) (line : Nat) (rest : List Token) :
    ((expr.print line ++ rest).headD .pastEnd).line = line := by
  induction expr generalizing rest with
  | literal value _ => exact value.line_token line
  | binary op left right _ ihLeft _ =>
      rw [print, List.append_assoc]
      exact ihLeft _
  | logical op left right _ ihLeft _ =>
      rw [print, List.append_assoc]
      exact ihLeft _
  | _ => rfl

/-- The kind of the first token depends neither on the line nor on what follows. -/
theorem kind_head_print (expr : Expr) (line other : Nat) (rest more : List Token) :
    ((expr.print line ++ rest).headD .pastEnd).kind =
      ((expr.print other ++ more).headD .pastEnd).kind := by
  induction expr generalizing rest more with
  | literal value _ => rcases value with _ | _ | _ | _ | (_ | _) | _ <;> rfl
  | binary op left right _ ihLeft _ =>
      rw [print, print, List.append_assoc, List.append_assoc]
      exact ihLeft _ _
  | logical op left right _ ihLeft _ =>
      rw [print, print, List.append_assoc, List.append_assoc]
      exact ihLeft _ _
  | _ => rfl

/-- On one line the operand of a line-break symbol is always seen. -/
theorem hasOperand_print {level : Level} {expr : Expr} {line : Nat} {rest : List Token}
    (hderives : Derives level (expr.print line ++ rest) (expr.onLine line) rest) {symbol : Token}
    (hsymbol : symbol.line = line) : symbol.hasOperand (expr.print line ++ rest) = true := by
  obtain ⟨first, others, hprint, hbegins⟩ := hderives.begins
  have hline := expr.line_head_print line rest
  rw [hprint, List.headD_cons] at hline
  simp [Token.hasOperand, hprint, hbegins, hline, hsymbol]

theorem derives_print {level : Level} {expr : Expr} (hfits : expr.fits level = true) (line : Nat)
    (rest : List Token) : Derives level (expr.print line ++ rest) (expr.onLine line) rest := by
  induction expr generalizing level rest with
  | literal value _ =>
      have hliteral : Derives .operand (value.token line :: rest)
          (.literal value (value.token line).line) rest :=
        .literal (value.literalValue?_token line)
      rw [value.line_token] at hliteral
      exact hliteral.loosenTo level.rank_le_operand
  | grouping inner _ ih =>
      have hinner := ih hfits (.fixed line .rightParen ")" :: rest)
      rw [print, List.cons_append, List.append_assoc]
      exact (Derives.grouping rfl hinner rfl).loosenTo level.rank_le_operand
  | unary op operand _ ih =>
      simp only [fits, Bool.and_eq_true, decide_eq_true_eq] at hfits
      have hoperand := ih hfits.2 rest
      exact (Derives.prefixed op.prefixed?_kind (fun _ => hasOperand_print hoperand rfl)
        hoperand).loosenTo hfits.1
  | binary op left right _ ihLeft ihRight =>
      simp only [fits, Bool.and_eq_true, decide_eq_true_eq] at hfits
      obtain ⟨⟨hrank, hleft⟩, hright⟩ := hfits
      have hright := ihRight hright rest
      have hleft := ihLeft hleft (.fixed line op.kind op.symbol :: (right.print line ++ rest))
      rw [print, List.append_assoc]
      exact (Derives.join hleft op.operatorLevel?_kind op.join?_kind
        (fun _ => hasOperand_print hright rfl) hright).loosenTo hrank
  | logical op left right _ ihLeft ihRight =>
      simp only [fits, Bool.and_eq_true, decide_eq_true_eq] at hfits
      obtain ⟨⟨hrank, hleft⟩, hright⟩ := hfits
      have hright := ihRight hright rest
      have hleft := ihLeft hleft (.fixed line op.kind op.symbol :: (right.print line ++ rest))
      rw [print, List.append_assoc]
      exact (Derives.join hleft op.operatorLevel?_kind op.join?_kind
        (fun _ => hasOperand_print hright rfl) hright).loosenTo hrank
  | «variable» name =>
      have hname : (name.onLine line).kind = .identifier := of_decide_eq_true hfits
      exact (Derives.named hname).loosenTo level.rank_le_operand
  | assign name value ih =>
      simp only [fits, Bool.and_eq_true, decide_eq_true_eq] at hfits
      obtain ⟨⟨rfl, hname⟩, hvalue⟩ := hfits
      have hname : (name.onLine line).kind = .identifier := hname
      exact .assign hname rfl (ih hvalue rest)

/-- A printed expression is read as a whole where what follows does not go on with it. -/
theorem spelled_print {expr : Expr} (hfits : expr.fits .assignment = true) (line : Nat)
    {rest : List Token}
    (hrest : Level.assignment.continues (rest.headD .pastEnd).kind = false) :
    Spelled (expr.print line ++ rest) (expr.onLine line) rest :=
  ⟨derives_print hfits line rest, hrest⟩

end Expr

end BeginCode
