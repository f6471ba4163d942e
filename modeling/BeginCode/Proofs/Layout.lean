import BeginCode.Proofs.ExprReading
import BeginCode.Proofs.Matching

/-!
# Layout

Every reader has the same outcome, up to lines, on tokens that differ in their lines only and agree
on what stays on the line of a line-break symbol. With `Program.execute_unlined` such tokens also
mean the same when they are executed.
-/

namespace BeginCode

open BeginCode.Token (Kind)
open BeginCode.Reading

/-! ### Expressions -/

namespace Expr

/-- The operator's line goes to the line of the node and nowhere else. -/
def Join.Unlines (join : Join) : Prop :=
  ∀ line left right, (join line left right).unlined = join 0 left.unlined right.unlined

theorem unlines_of_table {join? : Kind → Option Join}
    (htable : join? ∈ [orJoin?, andJoin?, equalityJoin?, orderJoin?, sumJoin?, productJoin?])
    {kind : Kind} {join : Join} (hjoin : join? kind = some join) : join.Unlines := by
  intro line left right
  simp only [List.mem_cons, List.not_mem_nil, or_false] at htable
  rcases htable with rfl | rfl | rfl | rfl | rfl | rfl <;> cases kind <;> cases hjoin <;> rfl

theorem agree_rightOperand {operand : Reading Expr}
    (hoperand : Agree Cursor.Matches unlined operand operand) {first second : Token}
    (htokens : first.unlined = second.unlined) :
    Agree (Cursor.MatchAfter first second) unlined (rightOperand operand first)
      (rightOperand operand second) := by
  refine agree_get_bind fun one two hmatch => ?_
  have hkind := Token.kind_eq_of_unlined htokens
  refine agree_ite ?_ (fun _ => Agree.after (agree_pure rfl)) fun _ => hoperand.after
  -- Here and at a symbol without a left operand are the only tests of a line.
  rw [← hkind]
  by_cases hbreak : first.kind = .lineBreak
  · rw [hmatch.2 hbreak]
  · simp [hbreak]

section Chain

variable {join? : Kind → Option Join} {operand : Reading Expr}

theorem agree_chainFrom (hjoins : ∀ {kind join}, join? kind = some join → join.Unlines)
    (hoperand : Agree Cursor.Matches unlined operand operand) (bound : Nat) {left other : Expr}
    (hleft : left.unlined = other.unlined) :
    Agree Cursor.Matches unlined (chainFrom join? operand bound left)
      (chainFrom join? operand bound other) := by
  induction bound generalizing left other with
  | zero => exact agree_pure hleft
  | succ bound ih =>
      refine agree_head_bind fun one two htokens => ?_
      rw [← Token.kind_eq_of_unlined htokens]
      cases hjoin : join? one.kind with
      | none => exact (agree_pure hleft).at
      | some join =>
          refine agree_advance_bind (agree_bind (agree_rightOperand hoperand htokens) ?_)
          intro right found hright
          apply ih
          rw [hjoins hjoin, hjoins hjoin, hleft, hright]

theorem agree_chain (hjoins : ∀ {kind join}, join? kind = some join → join.Unlines)
    (hoperand : Agree Cursor.Matches unlined operand operand) (bound : Nat) :
    Agree Cursor.Matches unlined (chain join? bound operand) (chain join? bound operand) :=
  agree_bind hoperand fun _ _ hleft => agree_chainFrom hjoins hoperand bound hleft

end Chain

theorem agree_operators {operand : Reading Expr}
    (hoperand : Agree Cursor.Matches unlined operand operand) (bound : Nat) :
    Agree Cursor.Matches unlined (operators bound operand) (operators bound operand) := by
  have hchain : ∀ join? ∈ [orJoin?, andJoin?, equalityJoin?, orderJoin?, sumJoin?, productJoin?],
      ∀ operand, Agree Cursor.Matches unlined operand operand →
        Agree Cursor.Matches unlined (chain join? bound operand) (chain join? bound operand) :=
    fun _ htable _ hoperand => agree_chain (unlines_of_table htable) hoperand bound
  exact hchain _ (by simp) _ <| hchain _ (by simp) _ <| hchain _ (by simp) _ <|
    hchain _ (by simp) _ <| hchain _ (by simp) _ <| hchain _ (by simp) _ hoperand

theorem agree_prefixOperators {operand : Reading Expr}
    (hoperand : Agree Cursor.Matches unlined operand operand) (bound : Nat) :
    Agree Cursor.Matches unlined (prefixOperators operand bound)
      (prefixOperators operand bound) := by
  induction bound with
  | zero => exact hoperand
  | succ bound ih =>
      refine agree_head_bind fun first second htokens => ?_
      rw [← Token.kind_eq_of_unlined htokens]
      cases hop : prefixed? first.kind with
      | none => exact hoperand.at
      | some op =>
          refine agree_advance_bind (agree_get_bind fun one two hmatch => ?_)
          refine agree_ite ?_ (fun _ => Agree.after (agree_pure rfl)) fun _ => Agree.after ?_
          · by_cases hbreak : op = .lineBreak
            · rw [hmatch.2 ((prefixed?_eq_lineBreak hop).mp hbreak)]
            · simp [hbreak]
          · exact agree_bind ih fun _ _ hinner => agree_pure (congrArg (unary op · 0) hinner)

theorem agree_missing : Agree Cursor.Matches unlined missing missing :=
  agree_fail fun _ _ htokens => by rw [Token.describe_eq_of_unlined htokens]

theorem agree_literal (value : Value) (first second : Token) :
    Agree (Cursor.MatchAt first second) unlined (operand.literal value first.line)
      (operand.literal value second.line) :=
  agree_advance_bind (Agree.after (agree_pure rfl))

theorem agree_operand {inner : Reading Expr} (hinner : Agree Cursor.Matches unlined inner inner) :
    Agree Cursor.Matches unlined (operand inner) (operand inner) := by
  refine agree_head_bind fun first second htokens => ?_
  have hliteral : first.literal = second.literal := by
    have hunlined : first.unlined.literal = second.unlined.literal := by rw [htokens]
    exact hunlined
  rw [← Token.kind_eq_of_unlined htokens, ← hliteral]
  split
  case h_9 => exact agree_advance_bind (Agree.after (agree_pure (congrArg Expr.variable htokens)))
  case h_10 =>
    refine agree_advance_bind (Agree.after (agree_bind hinner fun _ _ hexpr => ?_))
    exact agree_bind (agree_expect .rightParen _) fun _ _ _ =>
      agree_pure (congrArg (grouping · 0) hexpr)
  case h_11 => exact agree_missing.at
  all_goals exact agree_literal _ first second

theorem agree_assigned {target other value found : Expr} {first second : Token}
    (htarget : target.unlined = other.unlined) (hvalue : value.unlined = found.unlined) :
    Agree Cursor.Matches unlined (assigned target value first) (assigned other found second) := by
  have hreported : ∀ line after : Nat, Agree Cursor.Matches unlined
      (report .invalidAssignmentTarget line >>= fun _ => pure value)
      (report .invalidAssignmentTarget after >>= fun _ => pure found) :=
    fun line after => agree_bind (agree_report _ line after) fun _ _ _ => agree_pure hvalue
  cases target with
  | «variable» name =>
      cases other with
      | «variable» named =>
          refine agree_pure ?_
          rw [unlined, unlined, hvalue, Expr.variable.inj htarget]
      | _ => cases htarget
  | _ =>
      cases other with
      | «variable» named => cases htarget
      | _ => exact hreported _ _

theorem agree_readWithin (bound : Nat) :
    Agree Cursor.Matches unlined (readWithin bound) (readWithin bound) := by
  induction bound with
  | zero => exact agree_missing
  | succ bound ih =>
      refine agree_bind (agree_operators (agree_prefixOperators (agree_operand ih) _) _)
        fun target other htarget => ?_
      refine agree_head_bind fun first second htokens => ?_
      rw [← Token.kind_eq_of_unlined htokens]
      refine agree_ite .rfl (fun _ => ?_) fun _ => Agree.at (agree_pure htarget)
      exact agree_advance_bind (Agree.after (agree_bind ih fun _ _ hvalue =>
        agree_assigned htarget hvalue))

end Expr

/-! ### Statements -/

namespace Stmt

theorem unlinedAll_append (front back : List Stmt) :
    unlinedAll (front ++ back) = unlinedAll front ++ unlinedAll back := by
  rw [unlinedAll_eq, unlinedAll_eq, unlinedAll_eq, List.map_append]

theorem unlined_ofExpr {expr other : Expr} (hexpr : expr.unlined = other.unlined) :
    (ofExpr expr).unlined = (ofExpr other).unlined := congrArg (Stmt.expression · 0) hexpr

theorem unlined_forLoop {initializer first : Option Stmt} {condition second : Option Expr}
    {increment third : Option Expr} {body found : List Stmt} {bodyLine line one two : Nat}
    (hinitializer : initializer.map unlined = first.map unlined)
    (hcondition : condition.map Expr.unlined = second.map Expr.unlined)
    (hincrement : increment.map Expr.unlined = third.map Expr.unlined)
    (hbody : unlinedAll body = unlinedAll found) :
    (forLoop initializer condition increment body bodyLine line).unlined =
      (forLoop first second third found one two).unlined := by
  have herased : ∀ (initializer : Option Stmt) (condition increment : Option Expr)
      (body : List Stmt) (bodyLine line : Nat),
      (forLoop initializer condition increment body bodyLine line).unlined =
        forLoop (initializer.map unlined) (condition.map Expr.unlined)
          (increment.map Expr.unlined) (unlinedAll body) 0 0 := by
    intro initializer condition increment body bodyLine line
    cases initializer <;> cases condition <;> cases increment <;>
      simp [forLoop, unlined, unlinedAll_eq, unlinedAll, ofExpr, Expr.unlined]
  rw [herased, herased, hinitializer, hcondition, hincrement, hbody]

theorem agree_startExecutable : Agree Cursor.Matches id startExecutable startExecutable :=
  fun _ _ hmatches => .ok rfl ⟨hmatches.rest, rfl, hmatches.codeSeen, hmatches.report⟩

theorem agree_declarator (type : ValueType) (bound : Nat) :
    Agree Cursor.Matches unlined (declarator type bound) (declarator type bound) := by
  refine agree_bind (agree_expect .identifier _) fun name other hname => ?_
  refine agree_bind (agree_accept .equals) fun found _ hfound => ?_
  cases hfound
  refine agree_ite .rfl (fun _ => ?_) fun _ => ?_
  · refine agree_bind (Expr.agree_readWithin bound) fun _ _ hvalue => agree_pure ?_
    rw [unlined, unlined, hname, Option.map_some, Option.map_some, hvalue]
  · exact agree_pure (congrArg (Stmt.declare type · none) hname)

theorem agree_declarations (type : ValueType) (line other bound : Nat) :
    Agree Cursor.Matches unlinedAll (declarations type line bound)
      (declarations type other bound) := by
  refine agree_get_bind fun one two hmatches => ?_
  have hseparated : Agree Cursor.Matches unlinedAll (separated (declarator type bound) bound)
      (separated (declarator type bound) bound) := by
    rw [funext unlinedAll_eq]
    exact agree_separated (agree_declarator type bound) bound
  dsimp only
  rw [hmatches.executable]
  refine agree_ite .rfl (fun _ => ?_) fun _ => hseparated
  exact agree_bind (agree_report _ line other) fun _ _ _ => hseparated

theorem agree_forClause (bound : Nat) :
    Agree Cursor.Matches unlined (forClause bound) (forClause bound) := by
  refine agree_head_bind fun first second htokens => ?_
  rw [← Token.kind_eq_of_unlined htokens]
  cases first.kind.valueType? with
  | some type => exact agree_advance_bind (agree_declarator type bound).after
  | none =>
      exact Agree.at (agree_bind (Expr.agree_readWithin bound) fun _ _ hexpr =>
        agree_pure (unlined_ofExpr hexpr))

theorem agree_forInitializer (bound : Nat) :
    Agree Cursor.Matches (Option.map unlined) (forInitializer bound) (forInitializer bound) := by
  refine agree_bind (agree_accept .semicolon) fun found _ hfound => ?_
  cases hfound
  refine agree_ite .rfl (fun _ => agree_pure rfl) fun _ => ?_
  refine agree_bind (agree_forClause bound) fun _ _ hfirst => ?_
  exact agree_bind (agree_expect .semicolon _) fun _ _ _ => agree_pure (congrArg some hfirst)

theorem agree_optionalClause (closing : Kind) (bound : Nat) :
    Agree Cursor.Matches (Option.map Expr.unlined) (optionalClause closing bound)
      (optionalClause closing bound) := by
  refine agree_get_bind fun one two hmatches => ?_
  rw [hmatches.sees]
  refine agree_ite .rfl (fun _ => agree_pure rfl) fun _ => ?_
  exact agree_bind (Expr.agree_readWithin bound) fun _ _ hexpr => agree_pure (congrArg some hexpr)

section Nested

variable {inner : Reading (List Stmt)} (hinner : Agree Cursor.Matches unlinedAll inner inner)

include hinner

theorem agree_items (closing : Kind) (bound : Nat) :
    Agree Cursor.Matches unlinedAll (items inner closing bound) (items inner closing bound) := by
  induction bound with
  | zero => exact agree_pure rfl
  | succ bound ih =>
      refine agree_get_bind fun one two hmatches => ?_
      rw [hmatches.seesPair, hmatches.atEnd]
      refine agree_ite .rfl (fun _ => agree_pure rfl) fun _ => ?_
      refine agree_bind hinner fun _ _ hfirst => agree_bind ih fun _ _ hrest => agree_pure ?_
      rw [unlinedAll_append, unlinedAll_append, hfirst, hrest]

theorem agree_body (closing : Kind) (message : String) (bound : Nat) :
    Agree Cursor.Matches unlinedAll (body inner closing message bound)
      (body inner closing message bound) := by
  refine agree_bind (agree_items hinner closing bound) fun _ _ hfound => ?_
  exact agree_bind (agree_expect .kwEnd message) fun _ _ _ =>
    agree_bind (agree_expect closing message) fun _ _ _ => agree_pure hfound

theorem agree_keywordBody (keyword : Kind) (opening closing : String) (bound : Nat) :
    Agree Cursor.Matches (fun found : Nat × List Stmt => unlinedAll found.2)
      (keywordBody inner keyword opening closing bound)
      (keywordBody inner keyword opening closing bound) := by
  refine agree_bind (agree_expect .kwBegin opening) fun _ _ _ => ?_
  refine agree_bind (agree_expect keyword opening) fun _ _ _ => ?_
  exact agree_bind (agree_body hinner keyword closing bound) fun _ _ hfound => agree_pure hfound

theorem agree_keywordBlock (keyword : Kind) (opening closing : String) (bound : Nat) :
    Agree Cursor.Matches unlined (keywordBlock inner keyword opening closing bound)
      (keywordBlock inner keyword opening closing bound) := by
  refine agree_bind (agree_keywordBody hinner keyword opening closing bound)
    fun one two hfound => agree_pure ?_
  rw [unlined, unlined, hfound]

theorem agree_conditionalFrom (bound line other : Nat) :
    Agree Cursor.Matches unlined (conditionalFrom inner bound line)
      (conditionalFrom inner bound other) := by
  induction bound generalizing line other with
  | zero => exact agree_fail fun _ _ htokens => by rw [Token.describe_eq_of_unlined htokens]
  | succ bound ih =>
      refine agree_bind (agree_expect .leftParen _) fun _ _ _ => ?_
      refine agree_bind (Expr.agree_readWithin (bound + 1)) fun _ _ hcondition => ?_
      refine agree_bind (agree_expect .rightParen _) fun _ _ _ => ?_
      refine agree_bind (agree_keywordBlock hinner .kwIf _ _ (bound + 1)) fun _ _ hthen => ?_
      refine agree_bind (agree_accept .kwElse) fun found _ hfound => ?_
      cases hfound
      refine agree_ite .rfl (fun _ => ?_) fun _ => agree_pure ?_
      · refine agree_head_bind fun first second _ => Agree.at ?_
        refine agree_bind (agree_accept .kwIf) fun chained _ hchained => ?_
        cases hchained
        refine agree_ite .rfl (fun _ => ?_) fun _ => ?_
        · refine agree_bind (ih first.line second.line) fun _ _ helse => agree_pure ?_
          simp only [unlined, unlinedElse, hcondition, hthen, helse]
        · refine agree_bind (agree_keywordBlock hinner .kwIf _ _ (bound + 1))
            fun _ _ helse => agree_pure ?_
          simp only [unlined, unlinedElse, hcondition, hthen, helse]
      · simp only [unlined, unlinedElse, hcondition, hthen]

theorem agree_loopFrom (bound line other : Nat) :
    Agree Cursor.Matches unlined (loopFrom inner bound line) (loopFrom inner bound other) := by
  refine agree_bind (agree_expect .leftParen _) fun _ _ _ => ?_
  refine agree_bind (Expr.agree_readWithin bound) fun _ _ hcondition => ?_
  refine agree_bind (agree_expect .rightParen _) fun _ _ _ => ?_
  refine agree_bind (agree_keywordBlock hinner .kwWhile _ _ bound) fun _ _ hbody => agree_pure ?_
  rw [unlined, unlined, hcondition, hbody]

theorem agree_forLoopFrom (bound line other : Nat) :
    Agree Cursor.Matches unlined (forLoopFrom inner bound line)
      (forLoopFrom inner bound other) := by
  refine agree_bind (agree_expect .leftParen _) fun _ _ _ => ?_
  refine agree_bind (agree_forInitializer bound) fun _ _ hinitializer => ?_
  refine agree_bind (agree_optionalClause .semicolon bound) fun _ _ hcondition => ?_
  refine agree_bind (agree_expect .semicolon _) fun _ _ _ => ?_
  refine agree_bind (agree_optionalClause .rightParen bound) fun _ _ hincrement => ?_
  refine agree_bind (agree_expect .rightParen _) fun _ _ _ => ?_
  exact agree_bind (agree_keywordBody hinner .kwFor _ _ bound) fun _ _ hbody =>
    agree_pure (unlined_forLoop hinitializer hcondition hincrement hbody)

theorem agree_statement (bound : Nat) :
    Agree Cursor.Matches unlined (statement inner bound) (statement inner bound) := by
  have hstarted : ∀ {α γ : Type} {erase : α → γ} {one two : Reading α},
      Agree Cursor.Matches erase one two →
      Agree Cursor.Matches erase (startExecutable >>= fun _ => one)
        (startExecutable >>= fun _ => two) :=
    fun hagree => agree_bind agree_startExecutable fun _ _ _ => hagree
  refine agree_head_bind fun first second htokens => ?_
  rw [← Token.kind_eq_of_unlined htokens]
  split
  · exact agree_advance_bind (hstarted (agree_conditionalFrom hinner bound _ _)).after
  · exact agree_advance_bind (hstarted (agree_loopFrom hinner bound _ _)).after
  · exact agree_advance_bind (hstarted (agree_forLoopFrom hinner bound _ _)).after
  · refine agree_advance_bind (Agree.after (agree_bind (agree_expect .colon _) fun _ _ _ => ?_))
    exact hstarted (agree_bind (Expr.agree_readWithin bound) fun _ _ hvalue =>
      agree_pure (congrArg (Stmt.display · 0) hvalue))
  · refine agree_advance_bind (Agree.after (agree_bind (agree_expect .colon _) fun _ _ _ => ?_))
    exact hstarted (agree_bind (agree_separated (agree_expect .identifier _) bound)
      fun _ _ htargets => agree_pure (congrArg (Stmt.scan · 0) htargets))
  · exact Agree.at (hstarted (agree_bind (Expr.agree_readWithin bound) fun _ _ hexpr =>
      agree_pure (unlined_ofExpr hexpr)))

theorem agree_codeBlock (bound : Nat) :
    Agree Cursor.Matches unlinedAll (codeBlock inner bound) (codeBlock inner bound) := by
  have hbody := agree_body hinner .kwCode "Expect 'END CODE' after block." bound
  refine agree_get_bind fun one two hmatches => ?_
  refine agree_bind agree_advance fun _ _ _ => agree_bind agree_advance fun _ _ _ => ?_
  rw [hmatches.codeSeen]
  refine agree_ite .rfl (fun _ => ?_) fun _ => ?_
  · exact agree_bind (agree_report _ _ _) fun _ _ _ =>
      agree_bind hbody fun _ _ _ => agree_pure rfl
  · have hbegun : Agree Cursor.Matches id
        (modify fun cursor => { cursor with codeSeen := true, executable := false })
        (modify fun cursor => { cursor with codeSeen := true, executable := false }) :=
      fun _ _ hmatches => .ok rfl ⟨hmatches.rest, rfl, rfl, hmatches.report⟩
    refine agree_bind hbegun fun _ _ _ => agree_bind hbody fun _ _ hfound => agree_pure ?_
    simp only [unlinedAll, unlined, hfound]

theorem agree_item (bound : Nat) :
    Agree Cursor.Matches unlinedAll (item inner bound) (item inner bound) := by
  refine agree_get_bind fun one two hmatches => ?_
  rw [hmatches.kind, hmatches.seesPair]
  cases two.head.kind.valueType? with
  | some type => exact agree_bind agree_advance fun _ _ _ => agree_declarations type _ _ bound
  | none =>
      refine agree_ite .rfl (fun _ => agree_codeBlock hinner bound) fun _ => ?_
      exact agree_bind (agree_statement hinner bound) fun _ _ hfound =>
        agree_pure (congrArg (fun one => [one]) hfound)

end Nested

theorem agree_recovering {construct : Reading (List Stmt)}
    (hconstruct : Agree Cursor.Matches unlinedAll construct construct) :
    Agree Cursor.Matches unlinedAll (recovering construct) (recovering construct) := by
  intro one two hmatches
  have halike := hconstruct one two hmatches
  rw [run_recovering, run_recovering, hmatches.rest.length_eq]
  generalize construct.run one = outcome at halike ⊢
  generalize construct.run two = found at halike ⊢
  cases halike with
  | ok hresults hstates => exact .ok hresults hstates
  | error herrors hstates => exact .ok rfl ((hstates.addError herrors).resume _)

theorem agree_readItem (bound : Nat) :
    Agree Cursor.Matches unlinedAll (readItem bound) (readItem bound) := by
  induction bound with
  | zero => exact agree_pure rfl
  | succ bound ih => exact agree_recovering (agree_item ih (bound + 1))

end Stmt

/-! ### Programs -/

namespace Program

theorem agree_topLevel (bound : Nat) :
    Agree Cursor.Matches Stmt.unlinedAll (topLevel bound) (topLevel bound) := by
  refine agree_get_bind fun one two hmatches => ?_
  rw [hmatches.seesPair]
  refine agree_ite .rfl (fun _ => ?_) fun _ => ?_
  · exact Stmt.agree_codeBlock (Stmt.agree_readItem bound) bound
  · exact agree_fail fun _ _ htokens => by rw [Token.describe_eq_of_unlined htokens]

theorem agree_topLevels (bound rounds : Nat) :
    Agree Cursor.Matches Stmt.unlinedAll (topLevels bound rounds) (topLevels bound rounds) := by
  induction rounds with
  | zero => exact agree_pure rfl
  | succ rounds ih =>
      refine agree_get_bind fun one two hmatches => ?_
      rw [hmatches.atEnd]
      refine agree_ite .rfl (fun _ => agree_pure rfl) fun _ => ?_
      refine agree_bind (Stmt.agree_recovering (agree_topLevel bound)) fun _ _ hfirst => ?_
      refine agree_bind ih fun _ _ hrest => agree_pure ?_
      rw [Stmt.unlinedAll_append, Stmt.unlinedAll_append, hfirst, hrest]

theorem agree_read : Agree Cursor.Matches Stmt.unlinedAll read read := by
  refine agree_get_bind fun one two hmatches => ?_
  dsimp only
  rw [hmatches.rest.length_eq]
  refine agree_bind (agree_topLevels _ _) fun _ _ hfound => ?_
  refine agree_get_bind fun one two hmatches => ?_
  rw [hmatches.codeSeen, hmatches.hasStaticError]
  refine agree_ite .rfl (fun _ => ?_) fun _ => agree_pure hfound
  exact agree_bind (agree_report _ _ _) fun _ _ _ => agree_pure hfound

theorem parse_unlined {first second : List Token} {report other : Report}
    (hmatch : Token.AllMatch first second) (hreports : report.unlined = other.unlined) :
    (parse first report).1.map Stmt.unlined = (parse second other).1.map Stmt.unlined ∧
      (parse first report).2.unlined = (parse second other).2.unlined := by
  have halike := agree_read { rest := first, report } { rest := second, report := other }
    ⟨hmatch, rfl, rfl, hreports⟩
  unfold parse
  generalize read.run { rest := first, report } = outcome at halike ⊢
  generalize read.run { rest := second, report := other } = found at halike ⊢
  cases halike with
  | ok hresults hstates =>
      rw [Stmt.unlinedAll_eq, Stmt.unlinedAll_eq] at hresults
      exact ⟨hresults, hstates.report⟩
  | error _ hstates => exact ⟨rfl, hstates.report⟩

/-- Tokens that differ in their lines only, and agree on whether what follows a line-break symbol is
still on its line, are one program: they are read as the same statements with the same errors, and
these do the same, all up to lines. -/
theorem parse_execute_eq_of_lines {first second : List Token} {report other : Report}
    (htokens : first.map Token.unlined = second.map Token.unlined)
    (hlines : ∀ index < first.length, (first.getD index .pastEnd).kind = .lineBreak →
      ((first.getD (index + 1) .pastEnd).line ≤ (first.getD index .pastEnd).line + 1 ↔
        (second.getD (index + 1) .pastEnd).line ≤ (second.getD index .pastEnd).line + 1))
    (hreports : report.unlined = other.unlined) :
    (parse first report).1.map Stmt.unlined = (parse second other).1.map Stmt.unlined ∧
      (parse first report).2.unlined = (parse second other).2.unlined ∧
      ∀ bound console, (execute bound (parse first report).1 console).map Run.unlined =
        (execute bound (parse second other).1 console).map Run.unlined := by
  have hread := parse_unlined (Token.AllMatch.of_lines htokens hlines) hreports
  refine ⟨hread.1, hread.2, fun bound console => ?_⟩
  rw [← execute_unlined, hread.1, execute_unlined]

/-- One program on three lines and on six. In both the symbol keeps its operand. -/
def compact : String := "BEGIN CODE\nDISPLAY: 1 $ (2 / 0)\nEND CODE"

@[inherit_doc compact]
def spread : String := "BEGIN\nCODE DISPLAY\n:\n1\n$ (2\n/ 0) END CODE"

theorem parse_execute_eq_of_lines_spread :
    (scan compact).tokens.map Token.line ≠ (scan spread).tokens.map Token.line ∧
      (parse (scan compact).tokens .empty).2 = .empty ∧
      (parse (scan compact).tokens .empty).1.map Stmt.unlined =
        (parse (scan spread).tokens .empty).1.map Stmt.unlined ∧
      ((execute 1 (parse (scan spread).tokens .empty).1 ⟨[], [], none⟩).map Run.unlined).map
        Run.report = some ⟨[.runtime ⟨.divisionByZero, 0⟩]⟩ := by
  have htokens : (scan compact).tokens.map Token.unlined =
      (scan spread).tokens.map Token.unlined := by decide +kernel
  have hempty : Report.empty.unlined = Report.empty.unlined := rfl
  have hsame := parse_execute_eq_of_lines htokens (by decide +kernel) hempty
  refine ⟨by decide +kernel, by decide +kernel, hsame.1, ?_⟩
  rw [← hsame.2.2]
  decide +kernel

end Program

end BeginCode
