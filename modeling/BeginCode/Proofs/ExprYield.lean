import BeginCode.Proofs.ExprPrinting
import BeginCode.Proofs.ExprReading

/-!
# The tokens of an expression

An expression that is read consists of the tokens it was read from, in order and each used once:
`Expr.Yields used expr rest` relates a tree to the tokens of its nodes, where `rest` is what follows
them. The only node without a token is the empty text to the right of a line-break symbol that has
no operand. The tree is also the one that the levels of the operators ask for. Conversely, every
tree of this kind is read back from its tokens.
-/

namespace BeginCode.Expr

open BeginCode.Token (Kind)

/-- The nodes of an expression in order, with the tokens that they stand for. Every node is on the
line of its token. -/
inductive Yields : List Token → Expr → List Token → Prop where
  | literal {token : Token} {rest : List Token} {value : Value}
      (hvalue : token.literalValue? = some value) :
      Yields [token] (.literal value token.line) rest
  /-- A line-break symbol on its own. -/
  | lineBreak {symbol : Token} {rest : List Token} (hkind : symbol.kind = .lineBreak)
      (hnothing : symbol.hasOperand rest = false) :
      Yields [symbol] (.literal (.text "\n") symbol.line) rest
  | named {name : Token} {rest : List Token} (hname : name.kind = .identifier) :
      Yields [name] (.variable name) rest
  | grouping {opening closing : Token} {used rest : List Token} {inner : Expr}
      (hopening : opening.kind = .leftParen) (hinner : Yields used inner (closing :: rest))
      (hclosing : closing.kind = .rightParen) :
      Yields (opening :: (used ++ [closing])) (.grouping inner opening.line) rest
  | unary {operator : Token} {used rest : List Token} {op : UnaryOp} {operand : Expr}
      (hkind : operator.kind = op.kind)
      (hfollows : operator.kind = .lineBreak → operator.hasOperand (used ++ rest) = true)
      (hoperand : Yields used operand rest) :
      Yields (operator :: used) (.unary op operand operator.line) rest
  | binary {operator : Token} {front back rest : List Token} {op : BinaryOp} {left right : Expr}
      (hleft : Yields front left (operator :: (back ++ rest))) (hkind : operator.kind = op.kind)
      (hfollows : operator.kind = .lineBreak → operator.hasOperand (back ++ rest) = true)
      (hright : Yields back right rest) :
      Yields (front ++ operator :: back) (.binary op left right operator.line) rest
  /-- A line-break symbol with nothing to its right that could be its operand. -/
  | binaryNothing {symbol : Token} {front rest : List Token} {left : Expr}
      (hleft : Yields front left (symbol :: rest)) (hkind : symbol.kind = .lineBreak)
      (hnothing : symbol.hasOperand rest = false) :
      Yields (front ++ [symbol])
        (.binary (.join .lineBreak) left (.literal (.text "") symbol.line) symbol.line) rest
  | logical {operator : Token} {front back rest : List Token} {op : LogicalOp} {left right : Expr}
      (hleft : Yields front left (operator :: (back ++ rest))) (hkind : operator.kind = op.kind)
      (hright : Yields back right rest) :
      Yields (front ++ operator :: back) (.logical op left right operator.line) rest
  | assign {name equals : Token} {used rest : List Token} {value : Expr}
      (hname : name.kind = .identifier) (hequals : equals.kind = .equals)
      (hvalue : Yields used value rest) :
      Yields (name :: equals :: used) (.assign name value) rest

/-! ### Operators and their tokens -/

theorem kind_of_prefixed {kind : Kind} {op : UnaryOp} (hop : prefixed? kind = some op) :
    kind = op.kind := by
  cases kind <;> cases hop <;> rfl

/-- An operator token joins its operands with its own operator. -/
theorem join_cases {kind : Kind} {join : Join} (hjoin : kind.join? = some join) :
    (∃ op : BinaryOp, join = .binary op ∧ kind = op.kind) ∨
      ∃ op : LogicalOp, join = .logical op ∧ kind = op.kind := by
  cases kind <;> cases hjoin
  case kwOr => exact .inr ⟨.or, rfl, rfl⟩
  case kwAnd => exact .inr ⟨.and, rfl, rfl⟩
  all_goals exact .inl ⟨_, rfl, rfl⟩

/-! ### Yields -/

theorem Derives.exists_yields {level : Level} {tokens rest : List Token} {expr : Expr}
    (hderives : Derives level tokens expr rest) :
    ∃ used, tokens = used ++ rest ∧ Yields used expr rest := by
  induction hderives with
  | @assign name equals tokens rest value hname hequals _ ih =>
      obtain ⟨used, rfl, hused⟩ := ih
      exact ⟨name :: equals :: used, rfl, .assign hname hequals hused⟩
  | loosen _ _ ih => exact ih
  | @join level operator tokens middle rest left right join _ _ hjoin hoperand _ ihLeft ihRight =>
      obtain ⟨front, rfl, hleft⟩ := ihLeft
      obtain ⟨back, rfl, hright⟩ := ihRight
      refine ⟨front ++ operator :: back, by rw [List.append_assoc, List.cons_append], ?_⟩
      rcases join_cases hjoin with ⟨op, rfl, hkind⟩ | ⟨op, rfl, hkind⟩
      · exact .binary hleft hkind hoperand hright
      · exact .logical hleft hkind hright
  | @joinNothing operator tokens rest left _ hkind hoperand ih =>
      obtain ⟨front, rfl, hleft⟩ := ih
      exact ⟨front ++ [operator], by rw [List.append_assoc]; rfl,
        .binaryNothing hleft hkind hoperand⟩
  | @prefixed operator tokens rest op operand hop hfollows _ ih =>
      obtain ⟨used, rfl, hused⟩ := ih
      exact ⟨operator :: used, rfl, .unary (kind_of_prefixed hop) hfollows hused⟩
  | lineBreak hkind hoperand => exact ⟨[_], rfl, .lineBreak hkind hoperand⟩
  | literal hvalue => exact ⟨[_], rfl, .literal hvalue⟩
  | named hname => exact ⟨[_], rfl, .named hname⟩
  | @grouping opening closing tokens rest inner hopening _ hclosing ih =>
      obtain ⟨used, rfl, hused⟩ := ih
      exact ⟨opening :: (used ++ [closing]), by simp, .grouping hopening hused hclosing⟩

/-! ### Levels -/

/-- An expression that fits a level fits every looser one. -/
theorem fits_of_rank_le {expr : Expr} {level tight : Level} (hfits : expr.fits tight = true)
    (hrank : level.rank ≤ tight.rank) : expr.fits level = true := by
  cases expr with
  | literal value line => exact hfits
  | grouping inner line => exact hfits
  | unary op operand line =>
      simp only [fits, Bool.and_eq_true, decide_eq_true_eq] at hfits ⊢
      exact ⟨hrank.trans hfits.1, hfits.2⟩
  | binary op left right line =>
      simp only [fits, Bool.and_eq_true, decide_eq_true_eq] at hfits ⊢
      exact ⟨⟨hrank.trans hfits.1.1, hfits.1.2⟩, hfits.2⟩
  | logical op left right line =>
      simp only [fits, Bool.and_eq_true, decide_eq_true_eq] at hfits ⊢
      exact ⟨⟨hrank.trans hfits.1.1, hfits.1.2⟩, hfits.2⟩
  | «variable» name => exact hfits
  | assign name value =>
      simp only [fits, Bool.and_eq_true, decide_eq_true_eq] at hfits ⊢
      obtain ⟨⟨rfl, hname⟩, hvalue⟩ := hfits
      exact ⟨⟨Level.eq_of_rank_eq (Nat.le_zero.mp hrank), hname⟩, hvalue⟩

theorem Level.rank_tighter_le {level : Level} (hrank : level.rank < prefixed.rank) :
    level.tighter.rank ≤ prefixed.rank := by
  have hlevel : level ≠ .operand := by
    rintro rfl
    exact absurd hrank (by decide)
  rw [rank_tighter hlevel]
  exact hrank

/-- A derived expression groups its operands as the levels ask. -/
theorem Derives.fits {level : Level} {tokens rest : List Token} {expr : Expr}
    (hderives : Derives level tokens expr rest) : expr.fits level = true := by
  induction hderives with
  | assign hname _ _ ih => simp [Expr.fits, hname, ih]
  | @loosen level _ _ _ _ _ ih => exact fits_of_rank_le ih level.rank_le_rank_tighter
  | @join level operator _ _ _ left right join _ hlevel hjoin _ _ ihLeft ihRight =>
      rcases join_cases hjoin with ⟨op, rfl, hkind⟩ | ⟨op, rfl, hkind⟩
      · rw [hkind, op.operatorLevel?_kind] at hlevel
        obtain rfl := Option.some.inj hlevel
        simp [Join.binary, Expr.fits, ihLeft, ihRight]
      · rw [hkind, op.operatorLevel?_kind] at hlevel
        obtain rfl := Option.some.inj hlevel
        simp [Join.logical, Expr.fits, ihLeft, ihRight]
  | joinNothing _ _ _ ih => simp [Expr.fits, BinaryOp.level, ih]
  | prefixed _ _ _ ih => simp [Expr.fits, ih]
  | lineBreak _ _ => rfl
  | literal _ => rfl
  | named hname => simp [Expr.fits, hname]
  | grouping _ _ _ ih => exact ih

/-- Conversely, the tokens of an expression that fits a level derive it there. Below the prefix
operators this would fail for a line-break symbol on its own. -/
theorem Yields.derives {tokens rest : List Token} {expr : Expr} (hyields : Yields tokens expr rest)
    {level : Level} (hrank : level.rank ≤ Level.prefixed.rank) (hfits : expr.fits level = true) :
    Derives level (tokens ++ rest) expr rest := by
  induction hyields generalizing level with
  | literal hvalue => exact (Derives.literal hvalue).loosenTo level.rank_le_operand
  | lineBreak hkind hnothing => exact (Derives.lineBreak hkind hnothing).loosenTo hrank
  | named hname => exact (Derives.named hname).loosenTo level.rank_le_operand
  | grouping hopening _ hclosing ih =>
      have hinner := ih (by decide) hfits
      rw [List.cons_append, List.append_assoc]
      exact (Derives.grouping hopening hinner hclosing).loosenTo level.rank_le_operand
  | @unary operator _ _ op _ hkind hfollows _ ih =>
      simp only [fits, Bool.and_eq_true, decide_eq_true_eq] at hfits
      have hop : prefixed? operator.kind = some op := by rw [hkind, op.prefixed?_kind]
      exact (Derives.prefixed hop hfollows (ih le_rfl hfits.2)).loosenTo hfits.1
  | @binary operator _ _ _ op _ _ _ hkind hfollows _ ihLeft ihRight =>
      simp only [fits, Bool.and_eq_true, decide_eq_true_eq] at hfits
      obtain ⟨⟨hloose, hleft⟩, hright⟩ := hfits
      have hlevel : operator.kind.operatorLevel? = some op.level := by
        rw [hkind, op.operatorLevel?_kind]
      have hjoin : operator.kind.join? = some (.binary op) := by rw [hkind, op.join?_kind]
      have htight := Level.rank_lt_of_operatorLevel hlevel
      rw [List.append_assoc]
      exact (Derives.join (ihLeft htight.le hleft) hlevel hjoin hfollows
        (ihRight (Level.rank_tighter_le htight) hright)).loosenTo hloose
  | binaryNothing _ hkind hnothing ih =>
      simp only [fits, Bool.and_eq_true, decide_eq_true_eq] at hfits
      rw [List.append_assoc]
      exact (Derives.joinNothing (ih (by decide) hfits.1.2) hkind hnothing).loosenTo hfits.1.1
  | @logical operator _ _ _ op _ _ _ hkind _ ihLeft ihRight =>
      simp only [fits, Bool.and_eq_true, decide_eq_true_eq] at hfits
      obtain ⟨⟨hloose, hleft⟩, hright⟩ := hfits
      have hlevel : operator.kind.operatorLevel? = some op.level := by
        rw [hkind, op.operatorLevel?_kind]
      have hjoin : operator.kind.join? = some (.logical op) := by rw [hkind, op.join?_kind]
      have hother : operator.kind ≠ .lineBreak := by
        rw [hkind]
        cases op <;> decide
      have htight := Level.rank_lt_of_operatorLevel hlevel
      rw [List.append_assoc]
      exact (Derives.join (ihLeft htight.le hleft) hlevel hjoin
        (fun hbreak => absurd hbreak hother)
        (ihRight (Level.rank_tighter_le htight) hright)).loosenTo hloose
  | assign hname hequals _ ih =>
      simp only [fits, Bool.and_eq_true, decide_eq_true_eq] at hfits
      obtain ⟨⟨rfl, -⟩, hvalue⟩ := hfits
      exact .assign hname hequals (ih hrank hvalue)

/-- An expression that is read silently from position `start` on is made of the tokens up to the
position where the reading stops, and it respects the levels of its operators. -/
theorem read_yields {tokens : List Token} {start : Nat} {cursor later : Cursor} {expr : Expr}
    (hposition : cursor.rest = tokens.drop start) (hread : read.run cursor = .ok expr later)
    (hsilent : later.report = cursor.report) :
    ∃ stop, start < stop ∧ stop ≤ tokens.length ∧
      later = cursor.goTo (tokens.drop stop) ∧
      Yields ((tokens.drop start).take (stop - start)) expr (tokens.drop stop) ∧
      expr.fits .assignment = true := by
  have hreads : (readWithin cursor.rest.length).Reads cursor expr later := ⟨hread, hsilent⟩
  obtain ⟨hderives, -, hlater⟩ := (recognizes_readWithin _).sound le_rfl hreads
  obtain ⟨used, hrest, hyields⟩ := hderives.exists_yields
  have hlength := hderives.length_lt
  rw [hposition] at hrest hlength
  have hused : used.length + later.rest.length = tokens.length - start := by
    rw [← List.length_append, ← hrest, List.length_drop]
  have hstop : tokens.drop (start + used.length) = later.rest := by
    rw [← List.drop_drop, hrest, List.drop_left]
  have hbetween : (tokens.drop start).take (start + used.length - start) = used := by
    rw [hrest, Nat.add_sub_cancel_left, List.take_left]
  refine ⟨start + used.length, ?_, ?_, ?_, ?_, hderives.fits⟩
  · rw [List.length_drop] at hlength
    omega
  · rw [List.length_drop] at hlength
    omega
  · rw [hstop]
    exact hlater
  · rw [hbetween, hstop]
    exact hyields

/-- After a colon `x = 1 + $2 * (y) $`, where the number `1` has no decoded value, and then a name
on a further line. -/
def breaking : List Token :=
  [.fixed 1 .colon ":", ⟨.identifier, "x", 1, none⟩, .fixed 1 .equals "=",
    ⟨.integer, "1", 1, none⟩, .fixed 1 .plus "+", .fixed 1 .lineBreak "$",
    ⟨.integer, "2", 2, some (.integer 2)⟩, .fixed 2 .star "*", .fixed 2 .leftParen "(",
    ⟨.identifier, "y", 2, none⟩, .fixed 2 .rightParen ")", .fixed 2 .lineBreak "$",
    ⟨.identifier, "z", 4, none⟩]

/-- The first line-break symbol has an operand. The last one joins with empty text, since the name
after it is too far down. -/
def broken : Expr :=
  .assign ⟨.identifier, "x", 1, none⟩
    (.binary (.arithmetic .add) (.literal .nil 1)
      (.binary (.join .lineBreak)
        (.binary (.arithmetic .mul) (.unary .lineBreak (.literal (.integer 2) 2) 1)
          (.grouping (.variable ⟨.identifier, "y", 2, none⟩) 2) 2)
        (.literal (.text "") 2) 2) 1)

theorem read_yields_breaking :
    ∃ later stop, read.run { rest := breaking.drop 1 } = .ok broken later ∧ 1 < stop ∧
      breaking.drop stop = [⟨.identifier, "z", 4, none⟩] ∧
      Yields ((breaking.drop 1).take (stop - 1)) broken (breaking.drop stop) ∧
      broken.fits .assignment = true := by
  have hrun : (match read.run { rest := breaking.drop 1 } with
      | .ok expr later =>
          decide (expr = broken ∧ later.rest = [⟨.identifier, "z", 4, none⟩] ∧
            later.report = .empty)
      | .error _ _ => false) = true := by
    decide +kernel
  cases hread : read.run { rest := breaking.drop 1 } with
  | error error later =>
      rw [hread] at hrun
      cases hrun
  | ok expr later =>
      rw [hread, decide_eq_true_eq] at hrun
      obtain ⟨rfl, hrest, hreport⟩ := hrun
      obtain ⟨stop, hstart, -, hlater, hyields, hfits⟩ :=
        @read_yields breaking 1 _ _ _ rfl hread hreport
      rw [hlater] at hrest
      exact ⟨later, stop, rfl, hstart, hrest, hyields, hfits⟩

/-- An expression that respects the levels of its operators is read back from its tokens, whether
they are printed on one line or are any others that it is made of, up to a token that is no operator
between two operands. -/
theorem read_print {expr : Expr} (hfits : expr.fits .assignment = true) {rest : List Token}
    (hrest : (rest.headD .pastEnd).kind.operatorLevel? = none) (cursor : Cursor) :
    (∀ line, read.run (cursor.goTo (expr.print line ++ rest)) =
      .ok (expr.onLine line) (cursor.goTo rest)) ∧
    ∀ tokens, Yields tokens expr rest →
      read.run (cursor.goTo (tokens ++ rest)) = .ok expr (cursor.goTo rest) := by
  have hends : Level.assignment.continues (rest.headD .pastEnd).kind = false :=
    Level.not_continues_of_none hrest
  refine ⟨fun line => (spelled_print hfits line hends).run_read cursor, fun tokens hyields => ?_⟩
  have hspelled : Spelled (tokens ++ rest) expr rest :=
    ⟨hyields.derives (by decide) hfits, hends⟩
  exact hspelled.run_read cursor

/-- `x = y = a OR NOT b AND 1 == c < 2 & "t" $ -3 * (z = $'c')`: all levels. -/
def layered : Expr :=
  let name (lexeme : String) : Token := ⟨.identifier, lexeme, 1, none⟩
  let grouped : Expr := .assign (name "z") (.unary .lineBreak (.literal (.char 'c') 1) 1)
  let product : Expr := .binary (.arithmetic .mul)
    (.binary (.join .lineBreak) (.literal (.text "t") 1)
      (.unary .negate (.literal (.integer 3) 1) 1) 1)
    (.grouping grouped 1) 1
  let sum : Expr := .binary (.join .concat) (.literal (.integer 2) 1) product 1
  let equality : Expr := .binary (.equality .equal) (.literal (.integer 1) 1)
    (.binary (.order .less) (.variable (name "c")) sum 1) 1
  .assign (name "x") (.assign (name "y") (.logical .or (.variable (name "a"))
    (.logical .and (.unary .not (.variable (name "b")) 1) equality 1) 1))

/-- An expression that is printed on one line comes before a name, and one on two lines, with an
escaped character at its end, before nothing. -/
theorem read_print_layered :
    layered.fits .assignment = true ∧
      read.run { rest := layered.print 7 ++ [⟨.identifier, "next", 7, none⟩] } =
        .ok (layered.onLine 7) { rest := [⟨.identifier, "next", 7, none⟩] } ∧
      read.run { rest := [⟨.identifier, "x", 1, none⟩, .fixed 1 .lineBreak "$",
          ⟨.escape, "[&]", 2, some (.char '&')⟩] } =
        .ok (.binary (.join .lineBreak) (.variable ⟨.identifier, "x", 1, none⟩)
          (.literal (.char '&') 2) 1) { rest := [] } := by
  have hfits : layered.fits .assignment = true := by decide
  have hyields : Yields ([⟨.identifier, "x", 1, none⟩] ++ .fixed 1 .lineBreak "$" ::
      [⟨.escape, "[&]", 2, some (.char '&')⟩])
      (.binary (.join .lineBreak) (.variable ⟨.identifier, "x", 1, none⟩)
        (.literal (.char '&') 2) 1) [] :=
    .binary (.named rfl) rfl (fun _ => by decide) (.literal rfl)
  exact ⟨hfits, (read_print hfits rfl { rest := [] }).1 7,
    (read_print (by decide) rfl { rest := [] }).2 _ hyields⟩

end BeginCode.Expr
