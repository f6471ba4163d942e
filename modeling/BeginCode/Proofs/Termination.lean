import BeginCode.Proofs.Bounds

/-!
# Reading terminates

Reading never goes back and never past the first end of input. Before the end, one item of a body
and one round of a program leave fewer tokens than there were, whether they are read or not. So the
rounds of every body and of every program come to an end, which for a program is the end of its
tokens, and a bound of at least the number of tokens is never noticed: all of them lead to the same.
-/

namespace BeginCode

open BeginCode.Token (Kind)
open BeginCode.Reading

/-! ### The operations of a reading -/

/-- What reading a program is made of. Expressions and items are nested at most `depth` deep. -/
inductive Operation where
  | advance
  | expect (kind : Kind) (message : String)
  | accept (kind : Kind)
  | resume (start : Nat)
  | report (cause : SyntaxCause) (line : Nat)
  | operand (depth : Nat)
  | prefixOperators (depth bound : Nat)
  | levels (tables : List (Kind → Option Expr.Join)) (depth bound : Nat)
  | rightOperand (operator : Token) (tables : List (Kind → Option Expr.Join)) (depth bound : Nat)
  | chainFrom (join? : Kind → Option Expr.Join) (tables : List (Kind → Option Expr.Join))
      (depth bound : Nat) (left : Expr)
  | assigned (target value : Expr) (operator : Token)
  | expression (depth : Nat)
  | declarator (type : ValueType) (bound : Nat)
  | declarations (type : ValueType) (line bound : Nat)
  | names (message : String) (bound : Nat)
  | startExecutable
  | conditional (depth bound line : Nat)
  | loop (depth bound line : Nat)
  | forClause (bound : Nat)
  | forInitializer (bound : Nat)
  | optionalClause (closing : Kind) (bound : Nat)
  | forLoop (depth bound line : Nat)
  | statement (depth bound : Nat)
  | codeBlock (depth bound : Nat)
  | item (depth bound : Nat)
  | readItem (depth : Nat)
  | items (closing : Kind) (depth bound : Nat)
  | body (closing : Kind) (message : String) (depth bound : Nat)
  | keywordBody (keyword : Kind) (openMessage closeMessage : String) (depth bound : Nat)
  | keywordBlock (keyword : Kind) (openMessage closeMessage : String) (depth bound : Nat)
  | topLevel (bound : Nat)
  | round (bound : Nat)
  | topLevels (bound rounds : Nat)
  | program

namespace Operation

/-- The levels of operators above prefix operators; an expression has all six. -/
def levelsOf (tables : List (Kind → Option Expr.Join)) (depth bound : Nat) : Reading Expr :=
  tables.foldr (fun join? tighter => Expr.chain join? bound tighter)
    (Expr.prefixOperators (Expr.operand (Expr.readWithin depth)) bound)

/-- Where the operation stops, whether it succeeds or fails. -/
def final : Operation → Cursor → Cursor
  | advance => Reading.advance.final
  | expect kind message => (Reading.expect kind message).final
  | accept kind => (Reading.accept kind).final
  | resume start => fun cursor => cursor.resume start
  | report cause line => (Reading.report cause line).final
  | operand depth => (Expr.operand (Expr.readWithin depth)).final
  | prefixOperators depth bound =>
      (Expr.prefixOperators (Expr.operand (Expr.readWithin depth)) bound).final
  | levels tables depth bound => (levelsOf tables depth bound).final
  | rightOperand operator tables depth bound =>
      (Expr.rightOperand (levelsOf tables depth bound) operator).final
  | chainFrom join? tables depth bound left =>
      (Expr.chainFrom join? (levelsOf tables depth bound) bound left).final
  | assigned target value operator => (Expr.assigned target value operator).final
  | expression depth => (Expr.readWithin depth).final
  | declarator type bound => (Stmt.declarator type bound).final
  | declarations type line bound => (Stmt.declarations type line bound).final
  | names message bound => (separated (Reading.expect .identifier message) bound).final
  | startExecutable => Stmt.startExecutable.final
  | conditional depth bound line => (Stmt.conditionalFrom (Stmt.readItem depth) bound line).final
  | loop depth bound line => (Stmt.loopFrom (Stmt.readItem depth) bound line).final
  | forClause bound => (Stmt.forClause bound).final
  | forInitializer bound => (Stmt.forInitializer bound).final
  | optionalClause closing bound => (Stmt.optionalClause closing bound).final
  | forLoop depth bound line => (Stmt.forLoopFrom (Stmt.readItem depth) bound line).final
  | statement depth bound => (Stmt.statement (Stmt.readItem depth) bound).final
  | codeBlock depth bound => (Stmt.codeBlock (Stmt.readItem depth) bound).final
  | item depth bound => (Stmt.item (Stmt.readItem depth) bound).final
  | readItem depth => (Stmt.readItem depth).final
  | items closing depth bound => (Stmt.items (Stmt.readItem depth) closing bound).final
  | body closing message depth bound =>
      (Stmt.body (Stmt.readItem depth) closing message bound).final
  | keywordBody keyword openMessage closeMessage depth bound =>
      (Stmt.keywordBody (Stmt.readItem depth) keyword openMessage closeMessage bound).final
  | keywordBlock keyword openMessage closeMessage depth bound =>
      (Stmt.keywordBlock (Stmt.readItem depth) keyword openMessage closeMessage bound).final
  | topLevel bound => (Program.topLevel bound).final
  | round bound => (Stmt.recovering (Program.topLevel bound)).final
  | topLevels bound rounds => (Program.topLevels bound rounds).final
  | program => Program.read.final

instance forward_levelsOf (tables : List (Kind → Option Expr.Join)) (depth bound : Nat) :
    Forward (levelsOf tables depth bound) := by
  induction tables with
  | nil => exact inferInstanceAs (Forward (Expr.prefixOperators _ bound))
  | cons join? tables ih =>
      exact inferInstanceAs (Forward (Expr.chain join? bound (levelsOf tables depth bound)))

theorem leadsTo_final (operation : Operation) (cursor : Cursor) :
    cursor.LeadsTo (operation.final cursor) := by
  cases operation with
  | resume start => exact cursor.leadsTo_resume start
  | _ =>
      dsimp only [final]
      exact Forward.leadsTo cursor

end Operation

/-! ### Sufficient bounds -/

namespace Reading

variable {α : Type} {reader : Nat → Reading α} {cursor later : Cursor} {result : α}

/-- With every bound of at least the number of tokens left, reading yields the same. -/
def Settles (reader : Nat → Reading α) (cursor : Cursor) (result : α) (later : Cursor) : Prop :=
  ∀ bound, cursor.rest.length ≤ bound → (reader bound).run cursor = .ok result later

theorem settles_of_run (hrun : (reader cursor.rest.length).run cursor = .ok result later)
    (hsame : ∀ bound, cursor.rest.length ≤ bound →
      (reader cursor.rest.length).run cursor = (reader bound).run cursor) :
    Settles reader cursor result later :=
  fun bound hbound => (hsame bound hbound).symm.trans hrun

/-- A round that is productive with sufficient bounds. -/
theorem exists_settles_round {round : Nat → Reading (List Stmt)}
    (hround : ∀ {length bound}, length ≤ bound → SameRounds length (round length) (round bound))
    (hbefore : cursor.atEnd = false) :
    ∃ found later, Settles round cursor found later ∧
      later.rest.length < cursor.rest.length := by
  obtain ⟨found, later, hrun, hless⟩ := (hround le_rfl).productive cursor hbefore le_rfl
  refine ⟨found, later, settles_of_run hrun fun bound hbound => ?_, hless⟩
  exact (hround hbound).run_eq cursor hbefore le_rfl

/-- The rounds come to an end, and with sufficient bounds it is the same end. -/
theorem exists_settles_rounds {round : Nat → Reading (List Stmt)} {stops : Cursor → Bool}
    (hround : ∀ {length bound}, length ≤ bound → SameRounds length (round length) (round bound))
    (hend : ∀ cursor : Cursor, cursor.atEnd = true → stops cursor = true) (cursor : Cursor) :
    ∃ found last, stops last = true ∧ ∀ depth, cursor.rest.length ≤ depth →
      Rounds (round depth) stops cursor found last ∧
        Settles (repeated (round depth) stops) cursor found last := by
  obtain ⟨found, last, hrounds⟩ :=
    (hround le_rfl).productive.exists_rounds hend (le_refl cursor.rest.length)
  refine ⟨found, last, hrounds.stops_last, fun depth hdepth => ?_⟩
  have hsame := (hround hdepth).rounds hend le_rfl hrounds
  exact ⟨hsame, fun bound hbound => hsame.run_repeated hbound⟩

end Reading

namespace Program

/-- Reading a program adds at most a report to what its rounds leave. -/
theorem run_read_of_topLevels {cursor last : Cursor} {found : List Stmt}
    (htopLevels : (topLevels cursor.rest.length cursor.rest.length).run cursor = .ok found last) :
    read.run cursor = .ok found (if !last.codeSeen && !last.report.hasStaticError then
      last.addError ⟨.missingCodeBlock, last.head.line⟩ else last) := by
  have hread : read.run cursor = (do
      let cursor ← get
      if !cursor.codeSeen && !cursor.report.hasStaticError then
        Reading.report .missingCodeBlock cursor.head.line
      return found : Reading (List Stmt)).run last := by
    rw [read, EStateM.run_bind, EStateM.run_get]
    dsimp only
    rw [EStateM.run_bind, htopLevels]
  rw [hread, EStateM.run_bind, EStateM.run_get]
  dsimp only
  split
  · rfl
  · rfl

/-- Reading from any cursor terminates, because it makes progress. No operation goes back or past
the end of input. Before the end, an item of a body and a round of the program consume a token. The
rounds of every body end where the body does, and those of the program at the end of input, whatever
tokens there are and with every sufficient bound. -/
theorem read_terminates (cursor : Cursor) :
    (∀ operation : Operation, cursor.LeadsTo (operation.final cursor)) ∧
    (cursor.atEnd = false →
      (∃ found later, Settles Stmt.readItem cursor found later ∧
        later.rest.length < cursor.rest.length) ∧
      ∃ found later, Settles (fun bound => Stmt.recovering (topLevel bound)) cursor found later ∧
        later.rest.length < cursor.rest.length) ∧
    (∀ closing : Kind, ∃ found last, Stmt.endsBody closing last = true ∧
      ∀ depth, cursor.rest.length ≤ depth →
        Rounds (Stmt.readItem depth) (Stmt.endsBody closing) cursor found last ∧
          Settles (Stmt.items (Stmt.readItem depth) closing) cursor found last) ∧
    ∃ found last later, (∀ depth, cursor.rest.length ≤ depth →
        Rounds (Stmt.recovering (topLevel depth)) Cursor.atEnd cursor found last ∧
          Settles (topLevels depth) cursor found last) ∧
      read.run cursor = .ok found later ∧ later.rest = last.rest ∧ later.atEnd = true := by
  refine ⟨fun operation => operation.leadsTo_final cursor, fun hbefore => ⟨?_, ?_⟩,
    fun closing => ?_, ?_⟩
  · exact exists_settles_round (Stmt.sameRounds_readItem le_rfl) hbefore
  · exact exists_settles_round (sameRounds_topLevel le_rfl) hbefore
  · obtain ⟨found, last, hends, hrounds⟩ := exists_settles_rounds (Stmt.sameRounds_readItem le_rfl)
      (fun _ => Stmt.endsBody_of_atEnd closing) cursor
    refine ⟨found, last, hends, fun depth hdepth => ⟨(hrounds depth hdepth).1, ?_⟩⟩
    intro bound hbound
    rw [Stmt.items_eq_repeated]
    exact (hrounds depth hdepth).2 bound hbound
  · obtain ⟨found, last, hends, hrounds⟩ := exists_settles_rounds (sameRounds_topLevel le_rfl)
      (fun _ => id) cursor
    have hsettles (depth : Nat) (hdepth : cursor.rest.length ≤ depth) :
        Settles (topLevels depth) cursor found last := by
      intro bound hbound
      rw [topLevels_eq_repeated]
      exact (hrounds depth hdepth).2 bound hbound
    have hread := run_read_of_topLevels (hsettles _ le_rfl _ le_rfl)
    have hrest : (if !last.codeSeen && !last.report.hasStaticError then
        last.addError ⟨.missingCodeBlock, last.head.line⟩ else last).rest = last.rest := by
      split
      · rfl
      · rfl
    refine ⟨found, last, _, fun depth hdepth => ?_, hread, hrest, ?_⟩
    · exact ⟨(hrounds depth hdepth).1, hsettles depth hdepth⟩
    · rw [Cursor.atEnd, Cursor.head_eq, hrest]
      exact hends

/-- Keywords in a wrong order, with an end of input between them and none after them. -/
def misplaced : Cursor where
  rest := [⟨.kwElse, "ELSE", 1, none⟩, ⟨.kwEnd, "END", 1, none⟩, ⟨.kwBegin, "BEGIN", 1, none⟩,
    ⟨.endOfInput, "", 2, none⟩, ⟨.kwCode, "CODE", 2, none⟩]

theorem read_terminates_misplaced :
    misplaced.atEnd = false ∧
      (∃ found later, Settles Stmt.readItem misplaced found later ∧
        later.rest.length < misplaced.rest.length) ∧
      ∃ found later, read.run misplaced = .ok found later ∧ later.atEnd = true := by
  obtain ⟨-, hprogress, -, found, _, later, -, hread, -, hends⟩ := read_terminates misplaced
  exact ⟨by decide, (hprogress (by decide)).1, found, later, hread, hends⟩

end Program

end BeginCode
