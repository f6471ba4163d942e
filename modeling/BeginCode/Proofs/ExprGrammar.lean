import BeginCode.Expr.Reading

/-!
# The grammar of expressions

`Expr.Derives level tokens expr rest` says that an expression of a level stands at the front of
`tokens` and leaves `rest`. Every rule names the tokens it consumes. What follows the line-break
symbol decides how it is read, so the rules for it look at the token after it.
-/

namespace BeginCode

/-- The levels of expressions, from loose to tight. -/
inductive Expr.Level where
  | assignment
  | disjunction
  | conjunction
  | equality
  | order
  | sum
  | product
  | prefixed
  | operand
  deriving DecidableEq, Repr

def Expr.Level.tighter : Level → Level
  | assignment => disjunction
  | disjunction => conjunction
  | conjunction => equality
  | equality => order
  | order => sum
  | sum => product
  | product => prefixed
  | prefixed => operand
  | operand => operand

def Expr.Level.rank : Level → Nat
  | assignment => 0
  | disjunction => 1
  | conjunction => 2
  | equality => 3
  | order => 4
  | sum => 5
  | product => 6
  | prefixed => 7
  | operand => 8

/-- The level of the operator between two operands that a token stands for. -/
def Token.Kind.operatorLevel? : Kind → Option Expr.Level
  | equals => some .assignment
  | kwOr => some .disjunction
  | kwAnd => some .conjunction
  | equalEqual | notEqual => some .equality
  | less | lessEqual | greater | greaterEqual => some .order
  | plus | minus | ampersand => some .sum
  | star | slash | percent | lineBreak => some .product
  | _ => none

/-- How an operator token joins its two operands. -/
def Token.Kind.join? : Kind → Option Expr.Join
  | kwOr => some (.logical .or)
  | kwAnd => some (.logical .and)
  | equalEqual => some (.binary (.equality .equal))
  | notEqual => some (.binary (.equality .notEqual))
  | less => some (.binary (.order .less))
  | lessEqual => some (.binary (.order .lessEqual))
  | greater => some (.binary (.order .greater))
  | greaterEqual => some (.binary (.order .greaterEqual))
  | plus => some (.binary (.arithmetic .add))
  | minus => some (.binary (.arithmetic .sub))
  | ampersand => some (.binary (.join .concat))
  | star => some (.binary (.arithmetic .mul))
  | slash => some (.binary (.arithmetic .div))
  | percent => some (.binary (.arithmetic .mod))
  | lineBreak => some (.binary (.join .lineBreak))
  | _ => none

/-- Whether a token of the kind goes on with an expression of the level. -/
def Expr.Level.continues (level : Level) (kind : Token.Kind) : Bool :=
  kind.operatorLevel?.any fun found => level.rank ≤ found.rank

/-- The value of a literal token; one without a decoded value stands for nil. -/
def Token.literalValue? (token : Token) : Option Value :=
  match token.kind with
  | .kwTrue => some (.bool true)
  | .kwFalse => some (.bool false)
  | .kwNil => some .nil
  | .integer | .float | .charLiteral | .text | .escape => some (token.literal.getD .nil)
  | _ => none

/-- Whether an operand of a line-break symbol comes next, on the symbol's line. -/
def Token.hasOperand (symbol : Token) (tokens : List Token) : Bool :=
  (tokens.headD .pastEnd).line ≤ symbol.line + 1 && (tokens.headD .pastEnd).kind.beginsOperand

namespace Expr

inductive Derives : Level → List Token → Expr → List Token → Prop where
  | assign {name equals : Token} {tokens rest : List Token} {value : Expr}
      (hname : name.kind = .identifier) (hequals : equals.kind = .equals)
      (hvalue : Derives .assignment tokens value rest) :
      Derives .assignment (name :: equals :: tokens) (.assign name value) rest
  | loosen {level : Level} {tokens rest : List Token} {expr : Expr} (hlevel : level ≠ .operand)
      (hexpr : Derives level.tighter tokens expr rest) : Derives level tokens expr rest
  | join {level : Level} {operator : Token} {tokens middle rest : List Token} {left right : Expr}
      {join : Join} (hleft : Derives level tokens left (operator :: middle))
      (hlevel : operator.kind.operatorLevel? = some level)
      (hjoin : operator.kind.join? = some join)
      (hoperand : operator.kind = .lineBreak → operator.hasOperand middle = true)
      (hright : Derives level.tighter middle right rest) :
      Derives level tokens (join operator.line left right) rest
  /-- A line-break symbol with no operand to its right on its line joins with empty text. -/
  | joinNothing {operator : Token} {tokens rest : List Token} {left : Expr}
      (hleft : Derives .product tokens left (operator :: rest))
      (hkind : operator.kind = .lineBreak) (hoperand : operator.hasOperand rest = false) :
      Derives .product tokens
        (.binary (.join .lineBreak) left (.literal (.text "") operator.line) operator.line) rest
  | prefixed {operator : Token} {tokens rest : List Token} {op : UnaryOp} {operand : Expr}
      (hop : prefixed? operator.kind = some op)
      (hfollows : operator.kind = .lineBreak → operator.hasOperand tokens = true)
      (hoperand : Derives .prefixed tokens operand rest) :
      Derives .prefixed (operator :: tokens) (.unary op operand operator.line) rest
  /-- A line-break symbol with no operand on either side is a line break. -/
  | lineBreak {operator : Token} {rest : List Token} (hkind : operator.kind = .lineBreak)
      (hoperand : operator.hasOperand rest = false) :
      Derives .prefixed (operator :: rest) (.literal (.text "\n") operator.line) rest
  | literal {token : Token} {rest : List Token} {value : Value}
      (hvalue : token.literalValue? = some value) :
      Derives .operand (token :: rest) (.literal value token.line) rest
  | named {name : Token} {rest : List Token} (hname : name.kind = .identifier) :
      Derives .operand (name :: rest) (.variable name) rest
  | grouping {opening closing : Token} {tokens rest : List Token} {inner : Expr}
      (hopening : opening.kind = .leftParen)
      (hinner : Derives .assignment tokens inner (closing :: rest))
      (hclosing : closing.kind = .rightParen) :
      Derives .operand (opening :: tokens) (.grouping inner opening.line) rest

/-- The longest expression at the front of the tokens: what follows does not go on with it. -/
def Spelled (tokens : List Token) (expr : Expr) (rest : List Token) : Prop :=
  Derives .assignment tokens expr rest ∧
    Level.assignment.continues (rest.headD .pastEnd).kind = false

theorem Derives.length_lt {level : Level} {tokens rest : List Token} {expr : Expr}
    (hderives : Derives level tokens expr rest) : rest.length < tokens.length := by
  induction hderives with
  | assign _ _ _ ih =>
      simp only [List.length_cons]
      omega
  | loosen _ _ ih => exact ih
  | join _ _ _ _ _ ihLeft ihRight =>
      simp only [List.length_cons] at ihLeft
      omega
  | joinNothing _ _ _ ih =>
      simp only [List.length_cons] at ih
      omega
  | prefixed _ _ _ ih =>
      simp only [List.length_cons]
      omega
  | lineBreak _ _ => simp
  | literal _ => simp
  | named _ => simp
  | grouping _ _ _ ih =>
      simp only [List.length_cons] at ih ⊢
      omega

theorem Spelled.length_lt {tokens rest : List Token} {expr : Expr}
    (hspelled : Spelled tokens expr rest) : rest.length < tokens.length := hspelled.1.length_lt

/-! ### How the levels fit together -/

namespace Level

theorem rank_le_rank_tighter (level : Level) : level.rank ≤ level.tighter.rank := by
  cases level <;> decide

theorem not_continues_tighter {level : Level} {kind : Token.Kind}
    (hkind : level.continues kind = false) : level.tighter.continues kind = false := by
  unfold continues at *
  cases hfound : kind.operatorLevel? with
  | none => rfl
  | some found =>
      simp only [hfound, Option.any_some, decide_eq_false_iff_not, Nat.not_le] at hkind ⊢
      exact Nat.lt_of_lt_of_le hkind level.rank_le_rank_tighter

theorem not_continues_of_none {level : Level} {kind : Token.Kind}
    (hkind : kind.operatorLevel? = none) : level.continues kind = false := by
  rw [continues, hkind]
  rfl

/-- An operator goes on with an expression of its own level and not with a tighter one. -/
theorem not_tighter_continues {level : Level} {kind : Token.Kind}
    (hlevel : kind.operatorLevel? = some level) : level.tighter.continues kind = false := by
  cases kind <;> cases hlevel <;> rfl

theorem operatorLevel_eq {level : Level} {kind : Token.Kind} (hkind : level.continues kind = true)
    (htighter : level.tighter.continues kind = false) : kind.operatorLevel? = some level := by
  unfold continues at *
  cases hfound : kind.operatorLevel? with
  | none => simp [hfound] at hkind
  | some found =>
      simp only [hfound, Option.any_some, decide_eq_true_eq, decide_eq_false_iff_not] at *
      cases level <;> cases found <;> revert hkind htighter <;> decide

theorem assignment_not_continues {kind : Token.Kind} (hkind : disjunction.continues kind = false)
    (hequals : kind ≠ .equals) : assignment.continues kind = false := by
  cases hcontinues : assignment.continues kind with
  | false => rfl
  | true =>
      have hlevel : kind.operatorLevel? = some .assignment := operatorLevel_eq hcontinues hkind
      cases kind <;> cases hlevel
      exact absurd rfl hequals

theorem rank_lt_of_operatorLevel {level : Level} {kind : Token.Kind}
    (hlevel : kind.operatorLevel? = some level) : level.rank < prefixed.rank := by
  cases kind <;> cases hlevel <;> decide

/-- No operator stands between operands on the levels below products. -/
@[simp]
theorem prefixed_continues (kind : Token.Kind) : prefixed.continues kind = false := by
  cases kind <;> rfl

@[simp]
theorem operand_continues (kind : Token.Kind) : operand.continues kind = false :=
  not_continues_tighter (prefixed_continues kind)

end Level

/-! ### How an expression begins -/

theorem Derives.begins {level : Level} {tokens rest : List Token} {expr : Expr}
    (hderives : Derives level tokens expr rest) :
    ∃ first others, tokens = first :: others ∧ first.kind.beginsOperand = true := by
  induction hderives with
  | assign hname _ _ => exact ⟨_, _, rfl, by rw [hname]; rfl⟩
  | loosen _ _ ih => exact ih
  | join _ _ _ _ _ ih _ => exact ih
  | joinNothing _ _ _ ih => exact ih
  | prefixed hop _ _ =>
      refine ⟨_, _, rfl, ?_⟩
      generalize Token.kind _ = kind at hop
      cases kind <;> cases hop <;> rfl
  | lineBreak hkind _ => exact ⟨_, _, rfl, by rw [hkind]; rfl⟩
  | literal hvalue =>
      refine ⟨_, _, rfl, ?_⟩
      unfold Token.literalValue? at hvalue
      split at hvalue <;> simp_all [Token.Kind.beginsOperand]
  | named hname => exact ⟨_, _, rfl, by rw [hname]; rfl⟩
  | grouping hopening _ _ => exact ⟨_, _, rfl, by rw [hopening]; rfl⟩

theorem Derives.operand_begins {tokens rest : List Token} {expr : Expr}
    (hderives : Derives .operand tokens expr rest) :
    prefixed? (tokens.headD .pastEnd).kind = none := by
  cases hderives with
  | loosen hlevel _ => cases hlevel rfl
  | join _ hlevel _ _ _ => cases Nat.lt_asymm (Level.rank_lt_of_operatorLevel hlevel) (by decide)
  | literal hvalue =>
      unfold Token.literalValue? at hvalue
      split at hvalue <;> simp_all [prefixed?]
  | named hname => simp [hname, prefixed?]
  | grouping hopening _ _ => simp [hopening, prefixed?]

end Expr

end BeginCode
