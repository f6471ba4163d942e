import BeginCode.Proofs.Completion

/-!
# Completing expressions

Where reading an expression fails silently, an operand or a closing parenthesis is missing. Putting
in `NIL` and the parentheses that are still open completes the expression. The levels of operators
are treated one by one, as they are read.
-/

namespace BeginCode

open BeginCode.Token (Kind)
open BeginCode.Reading

/-- The tokens begin with an operand that counts as standing on the line of any symbol before. -/
def Begins (tokens : List Token) : Prop := ∀ symbol : Token, symbol.hasOperand tokens = true

theorem Token.hasOperand_completed {symbol : Token} {used rest completed : List Token}
    (hoperand : symbol.hasOperand (used ++ rest) = true) (hstart : used = [] → Begins completed) :
    symbol.hasOperand (used ++ completed) = true := by
  by_cases hused : used = []
  · subst hused
    exact hstart rfl symbol
  · rw [hasOperand_eq (headD_append hused rest completed)]
    exact hoperand

namespace Expr

/-- Any expression can be completed from nothing. -/
theorem completes_derives (level : Level) (follow : List Token → Prop) :
    (Shape.ofGrammar (Derives level)).Completes Begins follow [] := by
  refine ⟨[⟨.kwNil, "", 0, none⟩], fun rest _ => ⟨⟨_, .of_operand level (.literal rfl)⟩, ?_⟩⟩
  intro _ symbol
  simp [Token.hasOperand, Token.Kind.beginsOperand]

/-! ### One level of operators -/

theorem fails_rightOperand {operand : Reading Expr} {operator : Token} {cursor later : Cursor}
    {error : SyntaxError} (hfails : (rightOperand operand operator).Fails cursor error later) :
    (operator.kind = .lineBreak → operator.hasOperand cursor.rest = true) ∧
      operand.Fails cursor error later := by
  have hrun : (if operator.kind = .lineBreak && !operator.hasOperand cursor.rest then
      (pure (.literal (.text "") operator.line) : Reading Expr) else operand).Fails cursor error
        later := hfails
  by_cases hnothing : (operator.kind = .lineBreak && !operator.hasOperand cursor.rest) = true
  · rw [if_pos hnothing] at hrun
    exact absurd hrun not_fails_pure
  · rw [if_neg hnothing] at hrun
    exact ⟨by simpa using hnothing, hrun⟩

section Chain

variable {level : Level} {join? : Kind → Option Join} {bound : Nat} {operand : Reading Expr}
  [Forward operand]

/-- An operator with a left operand, and the beginning of a right one. -/
theorem completes_join {front more tail : List Token} {operator : Token} {left : Expr} {join : Join}
    (hleft : Derives level (front ++ operator :: (more ++ tail)) left (operator :: (more ++ tail)))
    (hlevel : operator.kind.operatorLevel? = some level)
    (hjoin : operator.kind.join? = some join)
    (hfollows : operator.kind = .lineBreak → operator.hasOperand (more ++ tail) = true)
    (hright : (Shape.ofGrammar (Derives level.tighter)).Completes Begins Closing more) :
    ∃ added, ∀ rest, Closing rest →
      ∃ expr, Derives level (front ++ (operator :: more ++ (added ++ rest))) expr rest := by
  obtain ⟨added, hadded⟩ := hright
  refine ⟨added, fun rest hclosing => ?_⟩
  obtain ⟨⟨right, hright⟩, hstart⟩ := hadded rest hclosing
  obtain ⟨before, hbefore, hother⟩ := local_derives level left hleft
  obtain rfl := List.append_cancel_right hbefore
  have hreplaced := hother (operator :: (more ++ (added ++ rest))) (.inl rfl)
  exact ⟨_, .join hreplaced hlevel hjoin
    (fun hkind => Token.hasOperand_completed (hfollows hkind) hstart) hright⟩

omit [Forward operand] in
/-- A chain fails only after one of its operators. -/
theorem fails_chainFrom {rounds : Nat} {left : Expr} {cursor later : Cursor} {error : SyntaxError}
    (hfails : (chainFrom join? operand (rounds + 1) left).Fails cursor error later) :
    ∃ join, join? cursor.head.kind = some join ∧
      (advance >>= fun _ => rightOperand operand cursor.head >>= fun right =>
        chainFrom join? operand rounds (join cursor.head.line left right)).Fails cursor error
          later := by
  rw [chainFrom, fails_head_bind] at hfails
  cases hjoin : join? cursor.head.kind with
  | none =>
      rw [hjoin] at hfails
      exact absurd hfails not_fails_pure
  | some join =>
      rw [hjoin] at hfails
      exact ⟨join, rfl, hfails⟩

/-- The operand that is missing to the right of an operator, or in a longer chain. -/
theorem completes_chainFrom (table : IsTable level join?)
    (hoperand : Recognizes level.tighter bound operand)
    (hviable : ∀ cursor : Cursor, cursor.rest.length ≤ bound →
      operand.Viable cursor (.ofGrammar (Derives level.tighter)) Begins Closing)
    {rounds : Nat} {left : Expr} {cursor later : Cursor} {error : SyntaxError}
    {front used : List Token} (hbound : cursor.rest.length ≤ bound)
    (hleft : Derives level (front ++ cursor.rest) left cursor.rest)
    (htighter : level.tighter.continues cursor.head.kind = false)
    (hfails : (chainFrom join? operand rounds left).Fails cursor error later)
    (hused : cursor.rest = used ++ later.rest) (hclean : ¬Misplaced used) :
    ∃ added, ∀ rest, Closing rest →
      ∃ expr, Derives level (front ++ (used ++ (added ++ rest))) expr rest := by
  -- `front` keeps what has become the left operand so far: the grammar grows to the left.
  induction rounds generalizing left cursor front used with
  | zero => exact absurd hfails not_fails_pure
  | succ rounds ih =>
      obtain ⟨join, hsome, hhead⟩ := fails_chainFrom hfails
      obtain ⟨hlevel, hjoin⟩ := table.of_some htighter hsome
      have hnotEnd : cursor.head.kind ≠ .endOfInput := by
        intro hend
        rw [hend] at hlevel
        cases hlevel
      obtain ⟨tokens, hrest, -⟩ := Cursor.rest_eq_cons hnotEnd
      generalize cursor.head = operator at *
      have hafter := fails_of_advance hrest hnotEnd hhead
      have hfront : cursor.rest = [operator] ++ (cursor.goTo tokens).rest := hrest
      obtain ⟨more, hmore, rfl⟩ := hafter.split hfront hused
      have hlength : (cursor.goTo tokens).rest.length ≤ bound := by
        rw [hrest, List.length_cons] at hbound
        exact Nat.le_of_lt hbound
      rw [hrest] at hleft
      rcases fails_bind hafter with hright | ⟨right, between, hright, hchain⟩
      · obtain ⟨hfollows, hright⟩ := fails_rightOperand hright
        have hcompletes := hviable _ hlength hright hmore fun hmisplaced =>
          hclean (hmisplaced.append_left [operator])
        rw [Cursor.rest_goTo] at hmore hfollows
        rw [hmore] at hleft hfollows
        exact completes_join hleft hlevel hjoin hfollows hcompletes
      · obtain ⟨hjoined, hnext, -⟩ := derives_join hoperand hlength hleft hlevel hjoin hright
        obtain ⟨consumed, hconsumed, -⟩ := hright.leadsTo.rest
        obtain ⟨others, hothers, rfl⟩ := hchain.split hconsumed hmore
        have hgrown : Derives level ((front ++ operator :: consumed) ++ between.rest)
            (join operator.line left right) between.rest := by
          rw [List.append_assoc, List.cons_append, ← hconsumed]
          exact hjoined
        obtain ⟨added, hadded⟩ := ih (hright.leadsTo.length_le.trans hlength) hgrown hnext hchain
          hothers fun hmisplaced => hclean (hmisplaced.append_left (operator :: consumed))
        refine ⟨added, fun rest hclosing => ?_⟩
        obtain ⟨expr, hexpr⟩ := hadded rest hclosing
        refine ⟨expr, ?_⟩
        simpa only [List.append_assoc, List.cons_append, List.nil_append] using hexpr

theorem viable_chain (table : IsTable level join?)
    (hoperand : Recognizes level.tighter bound operand)
    (hviable : ∀ cursor : Cursor, cursor.rest.length ≤ bound →
      operand.Viable cursor (.ofGrammar (Derives level.tighter)) Begins Closing)
    {cursor : Cursor} (hbound : cursor.rest.length ≤ bound) :
    (chain join? bound operand).Viable cursor (.ofGrammar (Derives level)) Begins Closing := by
  have hlevel : level ≠ .operand := by
    rintro rfl
    exact absurd table.tight (by decide)
  intro error later used hfails hused hclean
  rcases fails_bind hfails with hfirst | ⟨first, between, hfirst, hchain⟩
  · refine (hviable cursor hbound hfirst hused hclean).of_imp ?_
    rintro tokens rest - ⟨expr, hexpr⟩
    exact ⟨expr, .loosen hlevel hexpr⟩
  · obtain ⟨hderives, hnext, -⟩ := hoperand.sound hbound hfirst
    obtain ⟨front, hfront, -⟩ := hfirst.leadsTo.rest
    obtain ⟨more, hmore, rfl⟩ := hchain.split hfront hused
    have hleft : Derives level (front ++ between.rest) first between.rest :=
      hfront ▸ .loosen hlevel hderives
    obtain ⟨added, hadded⟩ := completes_chainFrom table hoperand hviable
      (hfirst.leadsTo.length_le.trans hbound) hleft hnext hchain hmore fun hmisplaced =>
        hclean (hmisplaced.append_left front)
    refine ⟨added, fun rest hclosing => ⟨?_, fun hnil => ?_⟩⟩
    · rw [List.append_assoc]
      exact hadded rest hclosing
    · have hshorter := hderives.length_lt
      rw [hfront, (List.append_eq_nil_iff.mp hnil).1] at hshorter
      exact absurd hshorter (Nat.lt_irrefl _)

end Chain

theorem viable_operators {bound : Nat} {operand : Reading Expr} [Forward operand]
    (hoperand : Recognizes .prefixed bound operand)
    (hviable : ∀ cursor : Cursor, cursor.rest.length ≤ bound →
      operand.Viable cursor (.ofGrammar (Derives .prefixed)) Begins Closing)
    {cursor : Cursor} (hbound : cursor.rest.length ≤ bound) :
    (operators bound operand).Viable cursor (.ofGrammar (Derives .disjunction)) Begins Closing := by
  have hproduct := recognizes_chain isTable_product hoperand
  have hsum := recognizes_chain isTable_sum hproduct
  have horder := recognizes_chain isTable_order hsum
  have hequality := recognizes_chain isTable_equality horder
  have hconjunction := recognizes_chain isTable_and hequality
  refine viable_chain isTable_or hconjunction (fun _ hbound => ?_) hbound
  refine viable_chain isTable_and hequality (fun _ hbound => ?_) hbound
  refine viable_chain isTable_equality horder (fun _ hbound => ?_) hbound
  refine viable_chain isTable_order hsum (fun _ hbound => ?_) hbound
  refine viable_chain isTable_sum hproduct (fun _ hbound => ?_) hbound
  exact viable_chain isTable_product hoperand hviable hbound

/-! ### Prefix operators and operands -/

theorem viable_prefixOperators {bound : Nat} {operand : Reading Expr} [Forward operand]
    (hviable : ∀ cursor : Cursor, cursor.rest.length ≤ bound →
      operand.Viable cursor (.ofGrammar (Derives .operand)) Begins Closing)
    (rounds : Nat) {cursor : Cursor} (hbound : cursor.rest.length ≤ bound) :
    (prefixOperators operand rounds).Viable cursor (.ofGrammar (Derives .prefixed)) Begins
      Closing := by
  have hplain {cursor : Cursor} (hbound : cursor.rest.length ≤ bound) :
      operand.Viable cursor (.ofGrammar (Derives .prefixed)) Begins Closing := by
    refine (hviable cursor hbound).of_imp ?_
    rintro tokens rest - ⟨expr, hexpr⟩
    exact ⟨expr, .loosen (by decide) hexpr⟩
  induction rounds generalizing cursor with
  | zero => exact hplain hbound
  | succ rounds ih =>
      refine viable_head_bind ?_
      cases hop : prefixed? cursor.head.kind with
      | none => exact hplain hbound
      | some op =>
          have hnotEnd : cursor.head.kind ≠ .endOfInput := by
            intro hend
            rw [hend] at hop
            cases hop
          obtain ⟨tokens, hrest, -⟩ := Cursor.rest_eq_cons hnotEnd
          have hlength : (cursor.goTo tokens).rest.length ≤ bound := by
            rw [hrest, List.length_cons] at hbound
            rw [Cursor.rest_goTo]
            omega
          refine viable_advance_bind hrest hnotEnd (viable_get_bind ?_)
          refine viable_ite (fun _ => viable_pure) fun hoperand => ?_
          intro error later used hfails hused hclean
          rcases fails_bind hfails with hinner | ⟨inner, between, -, hpure⟩
          · obtain ⟨added, hadded⟩ := ih hlength hinner hused hclean
            refine ⟨added, fun rest hclosing => ?_⟩
            obtain ⟨⟨expr, hexpr⟩, hstart⟩ := hadded rest hclosing
            refine ⟨⟨_, .prefixed hop (fun hkind => ?_) hexpr⟩, fun _ => trivial⟩
            have hfollows : (cursor.goTo tokens).seesOperand cursor.head = true := by
              have hbreak := (prefixed?_eq_lineBreak hop).mpr hkind
              simpa [hbreak] using hoperand
            change cursor.head.hasOperand (cursor.goTo tokens).rest = true at hfollows
            rw [hused] at hfollows
            exact Token.hasOperand_completed hfollows hstart
          · exact absurd hpure not_fails_pure

theorem viable_operand {bound : Nat} {inner : Reading Expr} [Forward inner]
    (hfollows : ∀ cursor : Cursor, cursor.rest.length ≤ bound → inner.Follows cursor Spelled)
    (hviable : ∀ cursor : Cursor, cursor.rest.length ≤ bound →
      inner.Viable cursor (.ofGrammar Spelled) Begins Closing)
    {cursor : Cursor} (hbound : cursor.rest.length ≤ bound + 1) :
    (operand inner).Viable cursor (.ofGrammar (Derives .operand)) Begins Closing := by
  refine viable_head_bind ?_
  have hliteral (value : Value) (line : Nat) : (operand.literal value line).Viable cursor
      (.ofGrammar (Derives .operand)) Begins Closing := by
    rintro error later used ⟨hrun, -⟩
    cases hrun
  split
  case h_9 =>
    rintro error later used ⟨hrun, -⟩
    cases hrun
  case h_10 hopening =>
    have hnotEnd : cursor.head.kind ≠ .endOfInput := by
      rw [hopening]
      decide
    obtain ⟨tokens, hrest, -⟩ := Cursor.rest_eq_cons hnotEnd
    have hlength : (cursor.goTo tokens).rest.length ≤ bound := by
      rw [hrest, List.length_cons] at hbound
      rw [Cursor.rest_goTo]
      omega
    have hclosed : (do
        let expr ← inner
        let _ ← expect .rightParen "Expect ')' after expression."
        return .grouping expr cursor.head.line : Reading Expr).Viable (cursor.goTo tokens)
          (.next (.ofGrammar Spelled) (.next (.one .rightParen) .nothing)) (fun _ => True)
          Closing :=
      viable_bind ((hfollows _ hlength).consumes fun _ expr _ hexpr => ⟨expr, hexpr⟩)
        (Shape.local_ofGrammar local_spelled) (hviable _ hlength)
        (fun _ _ _ => viable_expect_bind (by decide) (closing_of_kind rfl)
          (fun _ _ _ => viable_pure) (Shape.completes_nothing fun _ _ => trivial))
        (Shape.completes_next (Shape.completes_one (closing_of_kind rfl))
          (Shape.completes_nothing fun _ _ => trivial))
    refine viable_advance_bind hrest hnotEnd (hclosed.of_imp ?_)
    rintro tokens rest - ⟨_, ⟨expr, hexpr, -⟩, _, ⟨closing, rfl, hclosing⟩, rfl⟩
    exact ⟨_, .grouping hopening hexpr hclosing⟩
  case h_11 => exact viable_fail (completes_derives .operand Closing)
  all_goals exact hliteral _ _

/-! ### Whole expressions -/

theorem not_fails_assigned {target value : Expr} {operator : Token} {cursor later : Cursor}
    {error : SyntaxError} : ¬(assigned target value operator).Fails cursor error later := by
  rintro ⟨hrun, -⟩
  cases target <;> cases hrun

/-- The target before an equals sign is a variable, or else misplaced. -/
theorem exists_variable_of_clean {target after more : List Token} {equals : Token} {expr : Expr}
    (hderives : Derives .disjunction (target ++ equals :: after) expr (equals :: after))
    (hequals : equals.kind = .equals) (hclean : ¬Misplaced (target ++ equals :: more)) :
    ∃ name, expr = .variable name := by
  by_contra hother
  obtain ⟨used, hused, hreplaced⟩ := local_derives .disjunction expr hderives
  obtain rfl := List.append_cancel_right hused
  exact hclean ⟨[], target, equals, more, expr, rfl, hequals, hreplaced [equals] (.inl rfl),
    fun name hname => hother ⟨name, hname⟩⟩

theorem completes_spelled : (Shape.ofGrammar Spelled).Completes Begins Closing [] := by
  refine (completes_derives .assignment Closing).of_imp ?_
  rintro tokens rest hclosing ⟨expr, hexpr⟩
  exact ⟨expr, hexpr, Level.assignment.not_continues_of_closing hclosing⟩

/-- The value that is missing after an equals sign. -/
theorem completes_assigned {bound : Nat} {target : Expr} {equals : Token} {tokens : List Token}
    {cursor later : Cursor} {error : SyntaxError} {front used : List Token}
    (hviable : ∀ cursor : Cursor, cursor.rest.length ≤ bound →
      (readWithin bound).Viable cursor (.ofGrammar Spelled) Begins Closing)
    (htarget : Derives .disjunction (front ++ equals :: tokens) target (equals :: tokens))
    (hequals : equals.kind = .equals) (hrest : cursor.rest = equals :: tokens)
    (hbound : tokens.length ≤ bound)
    (hfails : (advance >>= fun _ => readWithin bound >>= fun value =>
      assigned target value equals).Fails cursor error later)
    (hused : front ++ equals :: tokens = used ++ later.rest) (hclean : ¬Misplaced used) :
    (Shape.ofGrammar Spelled).Completes Begins Closing used := by
  have hnotEnd : equals.kind ≠ .endOfInput := by
    rw [hequals]
    decide
  have hmoved := fails_of_advance hrest hnotEnd hfails
  have hsplit : front ++ equals :: tokens = (front ++ [equals]) ++ (cursor.goTo tokens).rest := by
    rw [List.append_assoc]
    rfl
  obtain ⟨more, hmore, rfl⟩ := hmoved.split hsplit hused
  rw [List.append_assoc] at hclean
  obtain ⟨name, rfl⟩ := exists_variable_of_clean htarget hequals hclean
  obtain ⟨hname, hkind⟩ := htarget.of_variable
  have hsingle : front ++ equals :: tokens = [name] ++ equals :: tokens := hname
  obtain rfl := List.append_cancel_right hsingle
  rcases fails_bind hmoved with hvalue | ⟨value, last, -, hassigned⟩
  · obtain ⟨added, hadded⟩ := hviable _ hbound hvalue hmore fun hmisplaced =>
      hclean (hmisplaced.append_left [name, equals])
    refine ⟨added, fun rest hclosing => ?_⟩
    obtain ⟨⟨expr, hexpr, hnext⟩, -⟩ := hadded rest hclosing
    exact ⟨⟨_, .assign hkind hequals hexpr, hnext⟩, fun hnil => by cases hnil⟩
  · exact absurd hassigned not_fails_assigned

theorem viable_readWithin (bound : Nat) {cursor : Cursor} (hbound : cursor.rest.length ≤ bound) :
    (readWithin bound).Viable cursor (.ofGrammar Spelled) Begins Closing := by
  induction bound generalizing cursor with
  | zero => exact viable_fail completes_spelled
  | succ bound ih =>
      have hprefixed :=
        recognizes_prefixOperators (recognizes_operand (recognizes_readWithin bound))
      have htarget := viable_operators hprefixed (fun _ hbound => viable_prefixOperators
        (fun _ hbound => viable_operand (fun _ hbound => follows_readWithin hbound)
          (fun _ hbound => ih hbound) hbound) (bound + 1) hbound) hbound
      intro error later used hfails hused hclean
      rcases fails_bind hfails with hfirst | ⟨target, between, hreads, hvalue⟩
      · refine (htarget hfirst hused hclean).of_imp ?_
        rintro tokens rest hclosing ⟨expr, hexpr⟩
        exact ⟨expr, .loosen (by decide) hexpr,
          Level.assignment.not_continues_of_closing hclosing⟩
      · obtain ⟨hderives, -, -⟩ := (recognizes_operators hprefixed).sound hbound hreads
        obtain ⟨front, hfront, -⟩ := hreads.leadsTo.rest
        have hassign : (if between.head.kind = .equals then
            advance >>= fun _ => readWithin bound >>= fun value =>
              assigned target value between.head
          else pure target).Fails between error later := hvalue
        by_cases hequals : between.head.kind = .equals
        · rw [if_pos hequals] at hassign
          have hnotEnd : between.head.kind ≠ .endOfInput := by
            rw [hequals]
            decide
          obtain ⟨tokens, hrest, -⟩ := Cursor.rest_eq_cons hnotEnd
          generalize between.head = equals at *
          rw [hrest] at hfront
          rw [hfront, hrest] at hderives
          have hlength : tokens.length ≤ bound := by
            simp only [hfront, List.length_append, List.length_cons] at hbound
            omega
          exact completes_assigned (fun _ hbound => ih hbound) hderives hequals hrest hlength
            hassign (hfront.symm.trans hused) hclean
        · rw [if_neg hequals] at hassign
          exact absurd hassign not_fails_pure

end Expr

end BeginCode
