import BeginCode.Proofs.ProgramReading
import Mathlib.Data.Set.Defs

/-!
# Where lines come from

Reading puts into its statements and its errors only lines of the tokens it was given, and executing
statements fails only on lines that stand in them. So the line of every error is the line of a
token. The marker past the end of the tokens has a line of its own; it is never seen in tokens that
hold an end of input, since no reading moves past that.

Only errors that do not end the construct at hand are recorded directly. The others are thrown, and
recorded where reading recovers from them; they describe the token at which reading stands then.
-/

namespace BeginCode

open BeginCode.Token (Kind)

/-! ### Computations that keep an invariant -/

section Upholds

variable {ε σ α β : Type} {invariant : σ → Prop} {errors : ε → σ → Prop} {results : α → Prop}
  {others : β → Prop}

/-- From a state with the invariant, the outcome is one of the results or one of the errors for the
state in which it is thrown, and the state afterwards has the invariant again. -/
def Upholds (invariant : σ → Prop) (errors : ε → σ → Prop) (results : α → Prop)
    (computation : EStateM ε σ α) : Prop :=
  ∀ state, invariant state →
    match computation.run state with
    | .ok result later => results result ∧ invariant later
    | .error error later => errors error later ∧ invariant later

theorem Upholds.weaken {computation : EStateM ε σ α} {weaker : α → Prop}
    (hupholds : Upholds invariant errors results computation)
    (hresults : ∀ result, results result → weaker result) :
    Upholds invariant errors weaker computation := by
  intro state hstate
  have hrun := hupholds state hstate
  cases houtcome : computation.run state with
  | ok result later =>
      rw [houtcome] at hrun
      exact ⟨hresults result hrun.1, hrun.2⟩
  | error error later =>
      rw [houtcome] at hrun
      exact hrun

theorem upholds_pure {result : α} (hresult : results result) :
    Upholds invariant errors results (pure result : EStateM ε σ α) :=
  fun _ hstate => ⟨hresult, hstate⟩

theorem upholds_throw {error : ε} (herror : ∀ state, errors error state) :
    Upholds invariant errors results (throw error : EStateM ε σ α) :=
  fun state hstate => ⟨herror state, hstate⟩

theorem upholds_bind {first : EStateM ε σ α} {next : α → EStateM ε σ β}
    (hfirst : Upholds invariant errors results first)
    (hnext : ∀ result, results result → Upholds invariant errors others (next result)) :
    Upholds invariant errors others (first >>= next) := by
  intro state hstate
  have hrun := hfirst state hstate
  rw [EStateM.run_bind]
  cases houtcome : first.run state with
  | ok result later =>
      rw [houtcome] at hrun
      exact hnext result hrun.1 later hrun.2
  | error error later =>
      rw [houtcome] at hrun
      exact hrun

theorem upholds_ite {condition : Prop} [Decidable condition] {first second : EStateM ε σ α}
    (hfirst : condition → Upholds invariant errors results first)
    (hsecond : ¬condition → Upholds invariant errors results second) :
    Upholds invariant errors results (if condition then first else second) := by
  by_cases hcondition : condition
  · rw [if_pos hcondition]
    exact hfirst hcondition
  · rw [if_neg hcondition]
    exact hsecond hcondition

theorem upholds_get_bind {next : σ → EStateM ε σ α}
    (hnext : ∀ state, invariant state → Upholds invariant errors results (next state)) :
    Upholds invariant errors results (get >>= next) :=
  fun state hstate => hnext state hstate state hstate

theorem upholds_modify {change : σ → σ}
    (hchange : ∀ state, invariant state → invariant (change state)) :
    Upholds invariant errors (fun _ => True) (modify change : EStateM ε σ Unit) :=
  fun state hstate => ⟨trivial, hchange state hstate⟩

end Upholds

/-! ### Trees with given lines -/

/-- Every line in the expression is one of the given lines. -/
def Expr.Lined (lines : Set Nat) : Expr → Prop
  | literal _ line => line ∈ lines
  | grouping inner line => inner.Lined lines ∧ line ∈ lines
  | unary _ operand line => operand.Lined lines ∧ line ∈ lines
  | binary _ left right line => left.Lined lines ∧ right.Lined lines ∧ line ∈ lines
  | logical _ left right line => left.Lined lines ∧ right.Lined lines ∧ line ∈ lines
  | .variable name => name.line ∈ lines
  | assign name value => name.line ∈ lines ∧ value.Lined lines

mutual

/-- Every line in the statement is one of the given lines. -/
def Stmt.Lined (lines : Set Nat) : Stmt → Prop
  | .block body line => Stmt.AllLined lines body ∧ line ∈ lines
  | .expression expr line => expr.Lined lines ∧ line ∈ lines
  | .conditional condition thenBranch elseBranch line =>
      condition.Lined lines ∧ thenBranch.Lined lines ∧ Stmt.ElseLined lines elseBranch ∧
        line ∈ lines
  | .loop condition body line => condition.Lined lines ∧ body.Lined lines ∧ line ∈ lines
  | .display value line => value.Lined lines ∧ line ∈ lines
  | .scan targets line => (∀ target ∈ targets, target.line ∈ lines) ∧ line ∈ lines
  | .declare _ name initializer =>
      name.line ∈ lines ∧ ∀ expr ∈ initializer, expr.Lined lines
  | .assignAll names values line =>
      (∀ name ∈ names, name.line ∈ lines) ∧
        (∀ value ∈ values, ∀ expr ∈ value, expr.Lined lines) ∧ line ∈ lines

def Stmt.ElseLined (lines : Set Nat) : Option Stmt → Prop
  | none => True
  | some branch => branch.Lined lines

def Stmt.AllLined (lines : Set Nat) : List Stmt → Prop
  | [] => True
  | first :: rest => first.Lined lines ∧ Stmt.AllLined lines rest

end

variable {lines : Set Nat}

theorem Expr.Lined.line {expr : Expr} (hexpr : expr.Lined lines) : expr.line ∈ lines := by
  cases expr with
  | literal value line => exact hexpr
  | grouping inner line => exact hexpr.2
  | unary op operand line => exact hexpr.2
  | binary op left right line => exact hexpr.2.2
  | logical op left right line => exact hexpr.2.2
  | «variable» name => exact hexpr
  | assign name value => exact hexpr.1

namespace Stmt

theorem allLined_iff {statements : List Stmt} :
    AllLined lines statements ↔ ∀ statement ∈ statements, statement.Lined lines := by
  induction statements with
  | nil => simp [AllLined]
  | cons first rest ih => simp [AllLined, ih]

theorem AllLined.append {front back : List Stmt} (hfront : AllLined lines front)
    (hback : AllLined lines back) : AllLined lines (front ++ back) := by
  rw [allLined_iff] at *
  intro statement hmem
  rcases List.mem_append.mp hmem with hmem | hmem
  · exact hfront statement hmem
  · exact hback statement hmem

theorem lined_ofExpr {expr : Expr} (hexpr : expr.Lined lines) : (ofExpr expr).Lined lines :=
  ⟨hexpr, hexpr.line⟩

theorem lined_forLoop {initializer : Option Stmt} {condition increment : Option Expr}
    {body : List Stmt} {bodyLine line : Nat}
    (hinitializer : ∀ first ∈ initializer, first.Lined lines)
    (hcondition : ∀ expr ∈ condition, expr.Lined lines)
    (hincrement : ∀ expr ∈ increment, expr.Lined lines) (hbody : AllLined lines body)
    (hbodyLine : bodyLine ∈ lines) (hline : line ∈ lines) :
    (forLoop initializer condition increment body bodyLine line).Lined lines := by
  have htest : (condition.getD (.literal (.bool true) line)).Lined lines := by
    cases condition with
    | none => exact hline
    | some expr => exact hcondition expr rfl
  have hgrown : AllLined lines (body ++ increment.toList.map ofExpr) := by
    refine hbody.append ?_
    cases increment with
    | none => trivial
    | some expr => exact ⟨lined_ofExpr (hincrement expr rfl), trivial⟩
  cases initializer with
  | none => exact ⟨htest, ⟨hgrown, hbodyLine⟩, hline⟩
  | some first =>
      exact ⟨⟨hinitializer first rfl, ⟨htest, ⟨hgrown, hbodyLine⟩, hline⟩, trivial⟩, hline⟩

end Stmt

/-! ### Cursors and readings -/

/-- Whether the error ends the construct in which it is found. -/
def SyntaxCause.aborts : SyntaxCause → Bool
  | unexpectedToken _ _ | expectedExpression _ | codeOutsideBlock _ => true
  | invalidAssignmentTarget | declarationAfterExecutable => false
  | multipleCodeBlocks | missingCodeBlock => false

/-- The token that the cause describes. -/
def SyntaxCause.found? : SyntaxCause → Option String
  | unexpectedToken _ found | expectedExpression found | codeOutsideBlock found => some found
  | invalidAssignmentTarget | declarationAfterExecutable => none
  | multipleCodeBlocks | missingCodeBlock => none

/-- The error describes the token and is on its line. -/
structure SyntaxError.At (error : SyntaxError) (token : Token) : Prop where
  found : error.cause.found? = some token.describe
  line : error.line = token.line

/-- The lines that a reading may use and the errors that it may record. -/
structure Ledger where
  lines : Set Nat
  entries : Set Report.Entry
  recorded {cause : SyntaxCause} {line : Nat} (haborts : cause.aborts = false)
    (hline : line ∈ lines) : .grammatical ⟨cause, line⟩ ∈ entries

variable {ledger : Ledger}

/-- The lines of the tokens that are left and the errors found so far are those of the ledger. What
is seen past the last token counts unless there is an end of input before. -/
structure Cursor.Lined (ledger : Ledger) (cursor : Cursor) : Prop where
  tokens : ∀ token ∈ cursor.rest, token.line ∈ ledger.lines
  ends : Token.pastEnd.line ∈ ledger.lines ∨ ∃ token ∈ cursor.rest, token.kind = .endOfInput
  report : ∀ entry ∈ cursor.report.entries, entry ∈ ledger.entries

namespace Cursor

variable {cursor later : Cursor}

theorem Lined.head (hcursor : cursor.Lined ledger) : cursor.head.line ∈ ledger.lines := by
  cases hrest : cursor.rest with
  | nil =>
      rw [head_eq, hrest]
      rcases hcursor.ends with hpast | ⟨last, hlast, -⟩
      · exact hpast
      · simp [hrest] at hlast
  | cons token rest =>
      rw [head_cons hrest]
      exact hcursor.tokens token (by simp [hrest])

/-- Moving forward never loses the end of input. -/
theorem Lined.of_leadsTo (hcursor : cursor.Lined ledger) (hleads : cursor.LeadsTo later)
    (hreport : ∀ entry ∈ later.report.entries, entry ∈ ledger.entries) : later.Lined ledger := by
  obtain ⟨used, hrest, hused⟩ := hleads.rest
  refine ⟨fun token hmem => ?_, ?_, hreport⟩
  · apply hcursor.tokens
    rw [hrest]
    exact List.mem_append_right used hmem
  · refine hcursor.ends.imp_right ?_
    rintro ⟨last, hmem, hend⟩
    rw [hrest] at hmem
    rcases List.mem_append.mp hmem with hmem | hmem
    · exact absurd hend (hused last hmem)
    · exact ⟨last, hmem, hend⟩

theorem Lined.advance (hcursor : cursor.Lined ledger) : cursor.advance.Lined ledger := by
  refine hcursor.of_leadsTo cursor.leadsTo_advance ?_
  rw [report_advance]
  exact hcursor.report

theorem Lined.addError (hcursor : cursor.Lined ledger) {error : SyntaxError}
    (herror : .grammatical error ∈ ledger.entries) : (cursor.addError error).Lined ledger := by
  refine hcursor.of_leadsTo (cursor.leadsTo_addError error) fun entry hmem => ?_
  rcases List.mem_append.mp hmem with hmem | hmem
  · exact hcursor.report entry hmem
  · rw [List.mem_singleton.mp hmem]
    exact herror

theorem Lined.resume (hcursor : cursor.Lined ledger) (start : Nat) :
    (cursor.resume start).Lined ledger := by
  refine hcursor.of_leadsTo (cursor.leadsTo_resume start) ?_
  have hreport : (cursor.resume start).report = cursor.report := by
    unfold Cursor.resume
    split
    · exact cursor.report_advance
    · rfl
  rw [hreport]
  exact hcursor.report

end Cursor

namespace Reading

variable {α : Type} {results : α → Prop}

/-- Keeps to the lines and errors of the ledger, also when it fails, and then stands where the error
was found. -/
abbrev Lined (ledger : Ledger) (results : α → Prop) (reading : Reading α) : Prop :=
  Upholds (Cursor.Lined ledger) (fun error later => SyntaxError.At error later.head) results reading

theorem lined_head_bind {next : Token → Reading α}
    (hnext : ∀ token, token.line ∈ ledger.lines → Lined ledger results (next token)) :
    Lined ledger results (head >>= next) :=
  fun cursor hcursor => hnext cursor.head hcursor.head cursor hcursor

theorem lined_advance : Lined ledger (fun _ => True) advance :=
  upholds_modify fun _ hcursor => hcursor.advance

theorem lined_fail {cause : Token → SyntaxCause}
    (hcause : ∀ token, (cause token).found? = some token.describe) :
    Lined ledger results (fail cause : Reading α) :=
  fun cursor hcursor => ⟨⟨hcause cursor.head, rfl⟩, hcursor⟩

theorem lined_expect (kind : Kind) (message : String) :
    Lined ledger (fun token => token.line ∈ ledger.lines) (expect kind message) := by
  refine lined_head_bind fun token htoken => upholds_ite (fun _ => ?_) fun _ =>
    lined_fail fun _ => rfl
  exact upholds_bind lined_advance fun _ _ => upholds_pure htoken

theorem lined_accept (kind : Kind) : Lined ledger (fun _ => True) (accept kind) := by
  refine lined_head_bind fun token _ => upholds_ite (fun _ => ?_) fun _ => upholds_pure trivial
  exact upholds_bind lined_advance fun _ _ => upholds_pure trivial

theorem lined_report {cause : SyntaxCause} (haborts : cause.aborts = false) {line : Nat}
    (hline : line ∈ ledger.lines) : Lined ledger (fun _ => True) (report cause line) :=
  upholds_modify fun _ hcursor => hcursor.addError (ledger.recorded haborts hline)

theorem lined_separated {item : Reading α} (hitem : Lined ledger results item) (bound : Nat) :
    Lined ledger (fun found => ∀ one ∈ found, results one) (separated item bound) := by
  have hlast : Lined ledger (fun found => ∀ one ∈ found, results one)
      (item >>= fun first => pure [first]) :=
    upholds_bind hitem fun _ hfirst => upholds_pure (by simpa using hfirst)
  induction bound with
  | zero => exact hlast
  | succ bound ih =>
      refine upholds_bind hitem fun first hfirst => ?_
      refine upholds_bind (lined_accept .comma) fun _ _ => upholds_ite (fun _ => ?_) fun _ => ?_
      · refine upholds_bind ih fun rest hrest => upholds_pure ?_
        simpa using ⟨hfirst, hrest⟩
      · exact upholds_pure (by simpa using hfirst)

end Reading

open Reading

/-! ### Reading expressions -/

namespace Expr

theorem lined_join {join? : Kind → Option Join}
    (htable : join? ∈ [orJoin?, andJoin?, equalityJoin?, orderJoin?, sumJoin?, productJoin?])
    {kind : Kind} {join : Join} (hjoin : join? kind = some join) {left right : Expr} {line : Nat}
    (hleft : left.Lined ledger.lines) (hright : right.Lined ledger.lines)
    (hline : line ∈ ledger.lines) : (join line left right).Lined ledger.lines := by
  simp only [List.mem_cons, List.not_mem_nil, or_false] at htable
  rcases htable with rfl | rfl | rfl | rfl | rfl | rfl <;> cases kind <;> cases hjoin <;>
    exact ⟨hleft, hright, hline⟩

section Operators

variable {operand : Reading Expr}
  (hoperand : Reading.Lined ledger (Expr.Lined ledger.lines) operand)

include hoperand

theorem lined_rightOperand {operator : Token} (hoperator : operator.line ∈ ledger.lines) :
    Reading.Lined ledger (Expr.Lined ledger.lines) (rightOperand operand operator) :=
  upholds_get_bind fun _ _ =>
    upholds_ite (fun _ => upholds_pure hoperator) fun _ => hoperand

theorem lined_chain {join? : Kind → Option Join}
    (htable : join? ∈ [orJoin?, andJoin?, equalityJoin?, orderJoin?, sumJoin?, productJoin?])
    (bound : Nat) : Reading.Lined ledger (Expr.Lined ledger.lines) (chain join? bound operand) := by
  have hchainFrom : ∀ (bound : Nat) (left : Expr), left.Lined ledger.lines →
      Reading.Lined ledger (Expr.Lined ledger.lines) (chainFrom join? operand bound left) := by
    intro bound
    induction bound with
    | zero => exact fun left hleft => upholds_pure hleft
    | succ bound ih =>
        intro left hleft
        refine lined_head_bind fun operator hoperator => ?_
        cases hjoin : join? operator.kind with
        | none => exact upholds_pure hleft
        | some join =>
            refine upholds_bind lined_advance fun _ _ => ?_
            refine upholds_bind (lined_rightOperand hoperand hoperator) fun right hright => ?_
            exact ih _ (lined_join htable hjoin hleft hright hoperator)
  exact upholds_bind hoperand fun left hleft => hchainFrom bound left hleft

theorem lined_operators (bound : Nat) :
    Reading.Lined ledger (Expr.Lined ledger.lines) (operators bound operand) := by
  unfold operators
  refine lined_chain ?_ (by simp) bound
  refine lined_chain ?_ (by simp) bound
  refine lined_chain ?_ (by simp) bound
  refine lined_chain ?_ (by simp) bound
  refine lined_chain ?_ (by simp) bound
  exact lined_chain hoperand (by simp) bound

theorem lined_prefixOperators (bound : Nat) :
    Reading.Lined ledger (Expr.Lined ledger.lines) (prefixOperators operand bound) := by
  induction bound with
  | zero => exact hoperand
  | succ bound ih =>
      refine lined_head_bind fun operator hoperator => ?_
      cases prefixed? operator.kind with
      | none => exact hoperand
      | some op =>
          refine upholds_bind lined_advance fun _ _ => upholds_get_bind fun _ _ => ?_
          refine upholds_ite (fun _ => upholds_pure hoperator) fun _ => ?_
          exact upholds_bind ih fun inner hinner => upholds_pure ⟨hinner, hoperator⟩

end Operators

theorem lined_operand {inner : Reading Expr}
    (hinner : Reading.Lined ledger (Expr.Lined ledger.lines) inner) :
    Reading.Lined ledger (Expr.Lined ledger.lines) (operand inner) := by
  refine lined_head_bind fun token htoken => ?_
  have hliteral (value : Value) :
      Reading.Lined ledger (Expr.Lined ledger.lines) (operand.literal value token.line) :=
    upholds_bind lined_advance fun _ _ => upholds_pure htoken
  split
  case h_9 => exact upholds_bind lined_advance fun _ _ => upholds_pure htoken
  case h_10 =>
    refine upholds_bind lined_advance fun _ _ => upholds_bind hinner fun expr hexpr => ?_
    exact upholds_bind (lined_expect .rightParen _) fun _ _ => upholds_pure ⟨hexpr, htoken⟩
  case h_11 => exact lined_fail fun _ => rfl
  all_goals exact hliteral _

theorem lined_assigned {target value : Expr} {operator : Token}
    (htarget : target.Lined ledger.lines) (hvalue : value.Lined ledger.lines)
    (hoperator : operator.line ∈ ledger.lines) :
    Reading.Lined ledger (Expr.Lined ledger.lines) (assigned target value operator) := by
  unfold assigned
  split
  · exact upholds_pure ⟨htarget, hvalue⟩
  · exact upholds_bind (lined_report rfl hoperator) fun _ _ => upholds_pure hvalue

theorem lined_readWithin (bound : Nat) :
    Reading.Lined ledger (Expr.Lined ledger.lines) (readWithin bound) := by
  induction bound with
  | zero => exact lined_fail fun _ => rfl
  | succ bound ih =>
      refine upholds_bind (lined_operators (lined_prefixOperators (lined_operand ih) _) _)
        fun target htarget => ?_
      refine lined_head_bind fun operator hoperator => ?_
      refine upholds_ite (fun _ => ?_) fun _ => upholds_pure htarget
      refine upholds_bind lined_advance fun _ _ => upholds_bind ih fun value hvalue => ?_
      exact lined_assigned htarget hvalue hoperator

end Expr

/-! ### Reading statements -/

namespace Stmt

theorem lined_declarator (type : ValueType) (bound : Nat) :
    Reading.Lined ledger (Stmt.Lined ledger.lines) (declarator type bound) := by
  refine upholds_bind (lined_expect .identifier _) fun name hname => ?_
  refine upholds_bind (lined_accept .equals) fun _ _ => upholds_ite (fun _ => ?_) fun _ => ?_
  · refine upholds_bind (Expr.lined_readWithin bound) fun value hvalue => upholds_pure ?_
    exact ⟨hname, by simpa using hvalue⟩
  · exact upholds_pure ⟨hname, by simp⟩

theorem lined_declarations (type : ValueType) {line : Nat} (hline : line ∈ ledger.lines)
    (bound : Nat) :
    Reading.Lined ledger (AllLined ledger.lines) (declarations type line bound) := by
  have hseparated : Reading.Lined ledger (AllLined ledger.lines)
      (separated (declarator type bound) bound) :=
    (lined_separated (lined_declarator type bound) bound).weaken fun _ => allLined_iff.mpr
  refine upholds_get_bind fun _ _ => upholds_ite (fun _ => ?_) fun _ => hseparated
  exact upholds_bind (lined_report rfl hline) fun _ _ => hseparated

theorem lined_forClause (bound : Nat) :
    Reading.Lined ledger (Stmt.Lined ledger.lines) (forClause bound) := by
  refine lined_head_bind fun token _ => ?_
  cases token.kind.valueType? with
  | some type => exact upholds_bind lined_advance fun _ _ => lined_declarator type bound
  | none =>
      exact upholds_bind (Expr.lined_readWithin bound) fun _ hexpr =>
        upholds_pure (lined_ofExpr hexpr)

theorem lined_forInitializer (bound : Nat) :
    Reading.Lined ledger (fun found => ∀ first ∈ found, first.Lined ledger.lines)
      (forInitializer bound) := by
  refine upholds_bind (lined_accept .semicolon) fun _ _ => upholds_ite (fun _ => ?_) fun _ => ?_
  · exact upholds_pure (by simp)
  · refine upholds_bind (lined_forClause bound) fun first hfirst => ?_
    exact upholds_bind (lined_expect .semicolon _) fun _ _ =>
      upholds_pure (by simpa using hfirst)

theorem lined_optionalClause (closing : Kind) (bound : Nat) :
    Reading.Lined ledger (fun found => ∀ expr ∈ found, expr.Lined ledger.lines)
      (optionalClause closing bound) := by
  refine upholds_get_bind fun _ _ => upholds_ite (fun _ => upholds_pure (by simp)) fun _ => ?_
  exact upholds_bind (Expr.lined_readWithin bound) fun _ hexpr =>
    upholds_pure (by simpa using hexpr)

theorem lined_startExecutable : Reading.Lined ledger (fun _ => True) startExecutable :=
  upholds_modify fun _ hcursor => ⟨hcursor.tokens, hcursor.ends, hcursor.report⟩

section Nested

variable {inner : Reading (List Stmt)} (hinner : Reading.Lined ledger (AllLined ledger.lines) inner)

include hinner

theorem lined_items (closing : Kind) (bound : Nat) :
    Reading.Lined ledger (AllLined ledger.lines) (items inner closing bound) := by
  induction bound with
  | zero => exact upholds_pure trivial
  | succ bound ih =>
      refine upholds_get_bind fun _ _ => upholds_ite (fun _ => upholds_pure trivial) fun _ => ?_
      refine upholds_bind hinner fun _ hfirst => upholds_bind ih fun _ hrest => ?_
      exact upholds_pure (hfirst.append hrest)

theorem lined_body (closing : Kind) (message : String) (bound : Nat) :
    Reading.Lined ledger (AllLined ledger.lines) (body inner closing message bound) := by
  refine upholds_bind (lined_items hinner closing bound) fun _ hfound => ?_
  refine upholds_bind (lined_expect .kwEnd message) fun _ _ => ?_
  exact upholds_bind (lined_expect closing message) fun _ _ => upholds_pure hfound

theorem lined_keywordBody (keyword : Kind) (opening closing : String) (bound : Nat) :
    Reading.Lined ledger (fun found => found.1 ∈ ledger.lines ∧ AllLined ledger.lines found.2)
      (keywordBody inner keyword opening closing bound) := by
  refine upholds_bind (lined_expect .kwBegin opening) fun _ hopening => ?_
  refine upholds_bind (lined_expect keyword opening) fun _ _ => ?_
  exact upholds_bind (lined_body hinner keyword closing bound) fun _ hfound =>
    upholds_pure ⟨hopening, hfound⟩

theorem lined_keywordBlock (keyword : Kind) (opening closing : String) (bound : Nat) :
    Reading.Lined ledger (Stmt.Lined ledger.lines)
      (keywordBlock inner keyword opening closing bound) :=
  upholds_bind (lined_keywordBody hinner keyword opening closing bound) fun _ hfound =>
    upholds_pure ⟨hfound.2, hfound.1⟩

theorem lined_conditionalFrom (bound : Nat) {line : Nat} (hline : line ∈ ledger.lines) :
    Reading.Lined ledger (Stmt.Lined ledger.lines) (conditionalFrom inner bound line) := by
  induction bound generalizing line with
  | zero => exact lined_fail fun _ => rfl
  | succ bound ih =>
      refine upholds_bind (lined_expect .leftParen _) fun _ _ => ?_
      refine upholds_bind (Expr.lined_readWithin (bound + 1)) fun _ hcondition => ?_
      refine upholds_bind (lined_expect .rightParen _) fun _ _ => ?_
      refine upholds_bind (lined_keywordBlock hinner .kwIf _ _ (bound + 1)) fun _ hthen => ?_
      refine upholds_bind (lined_accept .kwElse) fun _ _ => upholds_ite (fun _ => ?_) fun _ => ?_
      · refine lined_head_bind fun next hnext => ?_
        refine upholds_bind (lined_accept .kwIf) fun _ _ => upholds_ite (fun _ => ?_) fun _ => ?_
        · exact upholds_bind (ih hnext) fun _ helse =>
            upholds_pure ⟨hcondition, hthen, helse, hline⟩
        · exact upholds_bind (lined_keywordBlock hinner .kwIf _ _ (bound + 1)) fun _ helse =>
            upholds_pure ⟨hcondition, hthen, helse, hline⟩
      · exact upholds_pure ⟨hcondition, hthen, trivial, hline⟩

theorem lined_loopFrom (bound : Nat) {line : Nat} (hline : line ∈ ledger.lines) :
    Reading.Lined ledger (Stmt.Lined ledger.lines) (loopFrom inner bound line) := by
  refine upholds_bind (lined_expect .leftParen _) fun _ _ => ?_
  refine upholds_bind (Expr.lined_readWithin bound) fun _ hcondition => ?_
  refine upholds_bind (lined_expect .rightParen _) fun _ _ => ?_
  exact upholds_bind (lined_keywordBlock hinner .kwWhile _ _ bound) fun _ hbody =>
    upholds_pure ⟨hcondition, hbody, hline⟩

theorem lined_forLoopFrom (bound : Nat) {line : Nat} (hline : line ∈ ledger.lines) :
    Reading.Lined ledger (Stmt.Lined ledger.lines) (forLoopFrom inner bound line) := by
  refine upholds_bind (lined_expect .leftParen _) fun _ _ => ?_
  refine upholds_bind (lined_forInitializer bound) fun _ hinitializer => ?_
  refine upholds_bind (lined_optionalClause .semicolon bound) fun _ hcondition => ?_
  refine upholds_bind (lined_expect .semicolon _) fun _ _ => ?_
  refine upholds_bind (lined_optionalClause .rightParen bound) fun _ hincrement => ?_
  refine upholds_bind (lined_expect .rightParen _) fun _ _ => ?_
  exact upholds_bind (lined_keywordBody hinner .kwFor _ _ bound) fun _ hbody =>
    upholds_pure (lined_forLoop hinitializer hcondition hincrement hbody.2 hbody.1 hline)

theorem lined_statement (bound : Nat) :
    Reading.Lined ledger (Stmt.Lined ledger.lines) (statement inner bound) := by
  refine lined_head_bind fun token htoken => ?_
  split
  · refine upholds_bind lined_advance fun _ _ => upholds_bind lined_startExecutable fun _ _ => ?_
    exact lined_conditionalFrom hinner bound htoken
  · refine upholds_bind lined_advance fun _ _ => upholds_bind lined_startExecutable fun _ _ => ?_
    exact lined_loopFrom hinner bound htoken
  · refine upholds_bind lined_advance fun _ _ => upholds_bind lined_startExecutable fun _ _ => ?_
    exact lined_forLoopFrom hinner bound htoken
  · refine upholds_bind lined_advance fun _ _ => upholds_bind (lined_expect .colon _) fun _ _ => ?_
    refine upholds_bind lined_startExecutable fun _ _ => ?_
    exact upholds_bind (Expr.lined_readWithin bound) fun _ hvalue =>
      upholds_pure ⟨hvalue, htoken⟩
  · refine upholds_bind lined_advance fun _ _ => upholds_bind (lined_expect .colon _) fun _ _ => ?_
    refine upholds_bind lined_startExecutable fun _ _ => ?_
    exact upholds_bind (lined_separated (lined_expect .identifier _) bound) fun _ htargets =>
      upholds_pure ⟨htargets, htoken⟩
  · refine upholds_bind lined_startExecutable fun _ _ => ?_
    exact upholds_bind (Expr.lined_readWithin bound) fun _ hexpr =>
      upholds_pure (lined_ofExpr hexpr)

theorem lined_codeBlock (bound : Nat) :
    Reading.Lined ledger (AllLined ledger.lines) (codeBlock inner bound) := by
  have hbody := lined_body hinner .kwCode "Expect 'END CODE' after block." bound
  refine upholds_get_bind fun cursor hcursor => ?_
  refine upholds_bind lined_advance fun _ _ => upholds_bind lined_advance fun _ _ => ?_
  refine upholds_ite (fun _ => ?_) fun _ => ?_
  · refine upholds_bind (lined_report rfl hcursor.head) fun _ _ => ?_
    exact upholds_bind hbody fun _ _ => upholds_pure trivial
  · have hbegun : Reading.Lined ledger (fun _ => True)
        (modify fun cursor => { cursor with codeSeen := true, executable := false }) :=
      upholds_modify fun _ hlined => ⟨hlined.tokens, hlined.ends, hlined.report⟩
    refine upholds_bind hbegun fun _ _ => upholds_bind hbody fun _ hfound => ?_
    exact upholds_pure ⟨⟨hfound, hcursor.head⟩, trivial⟩

theorem lined_item (bound : Nat) :
    Reading.Lined ledger (AllLined ledger.lines) (item inner bound) := by
  refine upholds_get_bind fun cursor hcursor => ?_
  cases cursor.head.kind.valueType? with
  | some type =>
      exact upholds_bind lined_advance fun _ _ => lined_declarations type hcursor.head bound
  | none =>
      refine upholds_ite (fun _ => lined_codeBlock hinner bound) fun _ => ?_
      exact upholds_bind (lined_statement hinner bound) fun _ hfound =>
        upholds_pure ⟨hfound, trivial⟩

end Nested

variable (hkept : ∀ error : SyntaxError, error.line ∈ ledger.lines →
  .grammatical error ∈ ledger.entries)

include hkept

/-- Recovery puts on record what was thrown. -/
theorem lined_recovering {construct : Reading (List Stmt)}
    (hconstruct : Reading.Lined ledger (AllLined ledger.lines) construct) :
    Reading.Lined ledger (AllLined ledger.lines) (recovering construct) := by
  intro cursor hcursor
  have hrun := hconstruct cursor hcursor
  rw [run_recovering]
  cases houtcome : construct.run cursor with
  | ok found after =>
      rw [houtcome] at hrun
      exact hrun
  | error error after =>
      rw [houtcome] at hrun
      have hline : error.line ∈ ledger.lines := by
        rw [hrun.1.line]
        exact hrun.2.head
      exact ⟨trivial, (hrun.2.addError (hkept error hline)).resume _⟩

theorem lined_readItem (bound : Nat) :
    Reading.Lined ledger (AllLined ledger.lines) (readItem bound) := by
  induction bound with
  | zero => exact upholds_pure trivial
  | succ bound ih => exact lined_recovering hkept (lined_item ih (bound + 1))

end Stmt

/-! ### Reading programs -/

namespace Program

variable (hkept : ∀ error : SyntaxError, error.line ∈ ledger.lines →
  .grammatical error ∈ ledger.entries)

include hkept

theorem lined_topLevels (bound rounds : Nat) :
    Reading.Lined ledger (Stmt.AllLined ledger.lines) (topLevels bound rounds) := by
  have htopLevel : Reading.Lined ledger (Stmt.AllLined ledger.lines) (topLevel bound) := by
    refine upholds_get_bind fun _ _ => upholds_ite (fun _ => ?_) fun _ => lined_fail fun _ => rfl
    exact Stmt.lined_codeBlock (Stmt.lined_readItem hkept bound) bound
  induction rounds with
  | zero => exact upholds_pure trivial
  | succ rounds ih =>
      refine upholds_get_bind fun _ _ => upholds_ite (fun _ => upholds_pure trivial) fun _ => ?_
      refine upholds_bind (Stmt.lined_recovering hkept htopLevel) fun _ hfirst => ?_
      exact upholds_bind ih fun _ hrest => upholds_pure (hfirst.append hrest)

theorem lined_read : Reading.Lined ledger (Stmt.AllLined ledger.lines) read := by
  refine upholds_get_bind fun _ _ => upholds_bind (lined_topLevels hkept _ _) fun _ hfound => ?_
  refine upholds_get_bind fun cursor hcursor => ?_
  refine upholds_ite (fun _ => ?_) fun _ => upholds_pure hfound
  exact upholds_bind (lined_report rfl hcursor.head) fun _ _ => upholds_pure hfound

theorem lined_parse {tokens : List Token} {report : Report}
    (htokens : ({ rest := tokens, report } : Cursor).Lined ledger) :
    Stmt.AllLined ledger.lines (parse tokens report).1 ∧
      ∀ entry ∈ (parse tokens report).2.entries, entry ∈ ledger.entries := by
  have hread := lined_read hkept _ htokens
  obtain ⟨found, later, hrun⟩ := exists_run_read { rest := tokens, report }
  rw [hrun] at hread
  simp only [parse, hrun]
  exact ⟨hread.1, hread.2.report⟩

end Program

/-! ### Executing -/

/-- Fails on one of the given lines. -/
abbrev Eval.Lined {α : Type} (lines : Set Nat) (eval : Eval α) : Prop :=
  Upholds (fun _ => True) (fun error _ => error.line ∈ lines) (fun _ => True) eval

def Stop.Lined (lines : Set Nat) : Stop → Prop
  | .fault error => error.line ∈ lines
  | .outOfRounds => True

/-- Stops on one of the given lines, if at an error. -/
abbrev Exec.Lined {α : Type} (lines : Set Nat) (exec : Exec α) : Prop :=
  Upholds (fun _ => True) (fun stop _ => stop.Lined lines) (fun _ => True) exec

namespace Eval

theorem lined_lookup {name : Token} (hname : name.line ∈ lines) : (lookup name).Lined lines := by
  intro environment _
  rw [run_lookup, Environment.lookup]
  cases environment.find? name.lexeme with
  | some binding => exact ⟨trivial, trivial⟩
  | none => exact ⟨hname, trivial⟩

theorem lined_assign {name : Token} (hname : name.line ∈ lines) (value : Value) :
    (assign name value).Lined lines := by
  intro environment _
  rw [run_assign]
  cases hfind : environment.find? name.lexeme with
  | none =>
      rw [Environment.assign_of_none hfind]
      exact ⟨hname, trivial⟩
  | some binding =>
      rw [Environment.assign_of_some hfind]
      by_cases hadmits : binding.type.admits value = true
      · rw [if_pos hadmits]
        exact ⟨trivial, trivial⟩
      · rw [if_neg hadmits]
        exact ⟨hname, trivial⟩

theorem lined_ofResult (result : Except RuntimeCause Value) {line : Nat} (hline : line ∈ lines) :
    (ofResult result line).Lined lines := by
  cases result with
  | ok value => exact upholds_pure trivial
  | error cause => exact upholds_throw fun _ => hline

end Eval

theorem Expr.lined_eval {expr : Expr} (hexpr : expr.Lined lines) : expr.eval.Lined lines := by
  induction expr with
  | literal value line => exact upholds_pure trivial
  | grouping inner line ih => exact ih hexpr.1
  | unary op operand line ih =>
      exact upholds_bind (ih hexpr.1) fun _ _ => Eval.lined_ofResult _ hexpr.2
  | binary op left right line ihLeft ihRight =>
      refine upholds_bind (ihLeft hexpr.1) fun _ _ => upholds_bind (ihRight hexpr.2.1) fun _ _ => ?_
      exact Eval.lined_ofResult _ hexpr.2.2
  | logical op left right line ihLeft ihRight =>
      refine upholds_bind (ihLeft hexpr.1) fun _ _ => ?_
      exact upholds_ite (fun _ => upholds_pure trivial) fun _ => ihRight hexpr.2.1
  | «variable» name =>
      exact upholds_bind (Eval.lined_lookup hexpr) fun _ _ => upholds_pure trivial
  | assign name value ih =>
      refine upholds_bind (ih hexpr.2) fun _ _ => ?_
      exact upholds_bind (Eval.lined_assign hexpr.1 _) fun _ _ => upholds_pure trivial

namespace Exec

variable {α : Type}

theorem lined_ofEval {eval : Eval α} (heval : eval.Lined lines) : (ofEval eval).Lined lines := by
  intro world _
  have hrun := heval world.environment trivial
  rw [run_ofEval]
  cases houtcome : eval.run world.environment with
  | ok result environment => exact ⟨trivial, trivial⟩
  | error error environment =>
      rw [houtcome] at hrun
      exact ⟨hrun.1, trivial⟩

theorem lined_eval {expr : Expr} (hexpr : expr.Lined lines) : (ofEval expr.eval).Lined lines :=
  lined_ofEval (Expr.lined_eval hexpr)

theorem lined_fault (cause : RuntimeCause) {line : Nat} (hline : line ∈ lines) :
    (fault cause line : Exec α).Lined lines := upholds_throw fun _ => hline

theorem lined_inScope {body : Exec α} (hbody : body.Lined lines) : (inScope body).Lined lines := by
  intro world _
  have hrun := hbody { world with environment := world.environment.push } trivial
  rw [run_inScope]
  cases houtcome : body.run { world with environment := world.environment.push } with
  | ok result after => exact ⟨trivial, trivial⟩
  | error stop after =>
      rw [houtcome] at hrun
      exact ⟨hrun.1, trivial⟩

theorem lined_define (name : String) (binding : Binding) : (define name binding).Lined lines :=
  upholds_modify fun _ _ => trivial

theorem lined_display (value : Value) {line : Nat} (hline : line ∈ lines) :
    (display value line).Lined lines := by
  intro world _
  rw [run_display]
  cases world.console.write (Console.utf8 (value.display ++ "\n")) with
  | mk complete console =>
      cases complete with
      | true => exact ⟨trivial, trivial⟩
      | false => exact ⟨hline, trivial⟩

theorem lined_takeLine : takeLine.Lined lines := fun _ _ => ⟨trivial, trivial⟩

theorem lined_assignFields {line : Nat} (hline : line ∈ lines)
    {pairs : List (Token × List Char)} (hpairs : ∀ pair ∈ pairs, pair.1.line ∈ lines) :
    (assignFields line pairs).Lined lines := by
  induction pairs with
  | nil => exact upholds_pure trivial
  | cons pair rest ih =>
      obtain ⟨target, field⟩ := pair
      have htarget : target.line ∈ lines := hpairs (target, field) (by simp)
      have hfield : (assignField target field line).Lined lines := by
        refine upholds_bind (lined_ofEval (Eval.lined_lookup htarget)) fun binding _ => ?_
        refine upholds_ite (fun _ => ?_) fun _ => lined_fault _ hline
        exact lined_ofEval (Eval.lined_assign htarget _)
      refine upholds_bind hfield fun _ _ => ih fun pair hmem => ?_
      exact hpairs pair (List.mem_cons_of_mem _ hmem)

theorem lined_scan {targets : List Token} {line : Nat}
    (htargets : ∀ target ∈ targets, target.line ∈ lines) (hline : line ∈ lines) :
    (scan targets line).Lined lines := by
  refine upholds_bind lined_takeLine fun read _ => ?_
  cases Console.decode? read with
  | none => exact lined_fault _ hline
  | some text =>
      refine upholds_ite (fun _ => lined_assignFields hline ?_) fun _ => lined_fault _ hline
      intro pair hmem
      exact htargets pair.1 (List.of_mem_zip hmem).1

theorem lined_declare (type : ValueType) {name : Token} {initializer : Option Expr}
    (hname : name.line ∈ lines) (hinitializer : ∀ expr ∈ initializer, expr.Lined lines) :
    (declare type name initializer).Lined lines := by
  cases initializer with
  | none => exact lined_define _ _
  | some expr =>
      refine upholds_bind (lined_eval (hinitializer expr rfl)) fun value _ => ?_
      exact upholds_ite (fun _ => lined_define _ _) fun _ => lined_fault _ hname

theorem lined_assignAll {pairs : List (Token × Option Expr)}
    (hnames : ∀ pair ∈ pairs, pair.1.line ∈ lines)
    (hvalues : ∀ pair ∈ pairs, ∀ expr ∈ pair.2, expr.Lined lines) :
    (assignAll pairs).Lined lines := by
  induction pairs with
  | nil => exact upholds_pure trivial
  | cons pair rest ih =>
      obtain ⟨name, initializer⟩ := pair
      have hname : name.line ∈ lines := hnames (name, initializer) (by simp)
      have hrest : (assignAll rest).Lined lines :=
        ih (fun pair hmem => hnames pair (List.mem_cons_of_mem _ hmem))
          fun pair hmem => hvalues pair (List.mem_cons_of_mem _ hmem)
      have hassign (value : Value) :
          (ofEval (Eval.assign name value) >>= fun _ => assignAll rest).Lined lines :=
        upholds_bind (lined_ofEval (Eval.lined_assign hname value)) fun _ _ => hrest
      cases initializer with
      | none => exact hassign .nil
      | some expr =>
          have hexpr : expr.Lined lines := hvalues (name, some expr) (by simp) expr rfl
          exact upholds_bind (lined_eval hexpr) fun value _ => hassign value

theorem lined_repeatWhile {condition : Expr} {body : Exec Unit} (hcondition : condition.Lined lines)
    (hbody : body.Lined lines) (bound : Nat) : (repeatWhile condition body bound).Lined lines := by
  induction bound with
  | zero => exact upholds_throw fun _ => trivial
  | succ bound ih =>
      refine upholds_bind (lined_eval hcondition) fun _ _ => upholds_ite (fun _ => ?_) fun _ => ?_
      · exact upholds_bind hbody fun _ _ => ih
      · exact upholds_pure trivial

end Exec

mutual

/-- A statement stops at errors on its own lines. -/
theorem Stmt.lined_exec (bound : Nat) :
    ∀ {statement : Stmt}, statement.Lined lines → (statement.exec bound).Lined lines
  | .block _ _, hlined => Exec.lined_inScope (Stmt.lined_execAll bound hlined.1)
  | .expression _ _, hlined =>
      upholds_bind (Exec.lined_eval hlined.1) fun _ _ => upholds_pure trivial
  | .conditional _ _ _ _, hlined =>
      upholds_bind (Exec.lined_eval hlined.1) fun _ _ =>
        upholds_ite (fun _ => Stmt.lined_exec bound hlined.2.1)
          fun _ => Stmt.lined_execElse bound hlined.2.2.1
  | .loop _ _ _, hlined =>
      Exec.lined_repeatWhile hlined.1 (Stmt.lined_exec bound hlined.2.1) bound
  | .display _ _, hlined =>
      upholds_bind (Exec.lined_eval hlined.1) fun _ _ => Exec.lined_display _ hlined.2
  | .scan _ _, hlined => Exec.lined_scan hlined.1 hlined.2
  | .declare type _ _, hlined => Exec.lined_declare type hlined.1 hlined.2
  | .assignAll _ _ _, hlined =>
      Exec.lined_assignAll (fun pair hmem => hlined.1 pair.1 (List.of_mem_zip hmem).1)
        fun pair hmem => hlined.2.1 pair.2 (List.of_mem_zip hmem).2

theorem Stmt.lined_execElse (bound : Nat) :
    ∀ {branch : Option Stmt}, Stmt.ElseLined lines branch → (Stmt.execElse bound branch).Lined lines
  | none, _ => upholds_pure trivial
  | some _, hlined => Stmt.lined_exec bound hlined

theorem Stmt.lined_execAll (bound : Nat) :
    ∀ {statements : List Stmt}, Stmt.AllLined lines statements →
      (Stmt.execAll bound statements).Lined lines
  | [], _ => upholds_pure trivial
  | _ :: _, hlined =>
      upholds_bind (Stmt.lined_exec bound hlined.1) fun _ _ => Stmt.lined_execAll bound hlined.2

end

end BeginCode
