import BeginCode.Proofs.BodyReading

/-!
# Reading statements follows the grammar of phrases

Inside the program block, reading an item of a body succeeds silently exactly where the grammar has
a phrase or, before the first phrase, a declaration. Every recovery from an error adds to the
report, so silence also means that nothing was skipped.
-/

namespace BeginCode.Stmt

open BeginCode.Token (Kind)
open BeginCode.Reading

/-! ### Control statements -/

section Control

variable {inner : Reading (List Stmt)} [Forward inner] {cursor : Cursor} {bound : Nat}

/-- A condition in parentheses and a body, and then reading on with a shorter rest. -/
theorem follows_guarded {kind : Kind} (hkind : kind ≠ .endOfInput)
    {opens closes begins ends : String} {next : Expr → Stmt → Reading Stmt}
    [∀ condition block, Forward (next condition block)]
    {others : Expr → Stmt → List Token → Stmt → List Token → Prop}
    (hinner : FollowsPhrases inner cursor) (hbound : cursor.rest.length ≤ bound)
    (hnext : ∀ condition block rest, rest.length < cursor.rest.length →
      (next condition block).Follows (cursor.goTo rest) (others condition block)) :
    (do
      let _ ← expect .leftParen opens
      let condition ← Expr.readWithin bound
      let _ ← expect .rightParen closes
      let block ← keywordBlock inner kind begins ends bound
      next condition block).Follows cursor fun tokens found rest =>
        ∃ opening inside, (tokens = opening :: inside ∧ opening.kind = Kind.leftParen) ∧
          ∃ condition middle, Expr.Spelled inside condition middle ∧
            ∃ closing after, (middle = closing :: after ∧ closing.kind = Kind.rightParen) ∧
              ∃ block later, (∃ body, Body.Spelled kind after body later ∧ block = body.lower) ∧
                others condition block later found rest := by
  -- What is left after the closing parenthesis bounds both the body and what follows it.
  have hafter {opening closing : Token} {inside middle after : List Token} {condition : Expr}
      (hopening : cursor.rest = opening :: inside)
      (hcondition : Expr.Spelled inside condition middle) (hclosing : middle = closing :: after) :
      after.length < cursor.rest.length := by
    have hlength := hcondition.length_lt
    rw [hclosing, List.length_cons] at hlength
    rw [hopening, List.length_cons]
    omega
  refine follows_bind (follows_expect (by decide)) fun opening inside hopening =>
    follows_bind (Expr.follows_readWithin ?_) fun condition middle hcondition =>
    follows_bind (follows_expect (by decide)) fun closing after hclosing =>
    follows_bind (follows_keywordBlock (hinner.goTo ?_) hkind ?_) fun block later hbody => ?_
  · rw [hopening.1, List.length_cons] at hbound
    exact Nat.le_of_lt hbound
  · exact Nat.le_of_lt (hafter hopening.1 hcondition hclosing.1)
  · exact Nat.le_trans (Nat.le_of_lt (hafter hopening.1 hcondition hclosing.1)) hbound
  · obtain ⟨body, hbody, -⟩ := hbody
    exact hnext condition block later
      (Nat.lt_trans hbody.length_lt (hafter hopening.1 hcondition hclosing.1))

theorem follows_otherwiseFrom (hinner : FollowsPhrases inner cursor)
    (hbound : cursor.rest.length ≤ bound + 1) {condition : Expr} {thenBranch : Stmt} {line : Nat}
    (hchained : ∀ keyword tokens, keyword.kind = .kwIf → tokens.length ≤ bound →
      FollowsPhrases inner (cursor.goTo tokens) →
      (conditionalFrom inner bound keyword.line).Follows (cursor.goTo tokens)
        fun tokens found rest =>
          ∃ branch, Branch.Spelled (keyword :: tokens) branch rest ∧ found = branch.lower) :
    (otherwiseFrom inner bound condition thenBranch line).Follows cursor fun tokens found rest =>
      ∃ otherwise, Otherwise.Spelled tokens otherwise rest ∧
        found = .conditional condition thenBranch otherwise.lower line := by
  have hnested {keyword second : Token} {middle tokens : List Token}
      (hmiddle : cursor.rest = keyword :: middle) (htokens : middle = second :: tokens)
      (hsecond : second.kind = .kwIf) :
      (conditionalFrom inner bound (cursor.goTo middle).head.line).Follows (cursor.goTo tokens)
        fun tokens found rest =>
          ∃ branch, Branch.Spelled (second :: tokens) branch rest ∧ found = branch.lower := by
    have hhead : (cursor.goTo middle).head = second := by rw [htokens]; rfl
    rw [hmiddle, htokens, List.length_cons, List.length_cons] at hbound
    rw [hhead]
    refine hchained second tokens hsecond (by omega) (hinner.goTo ?_)
    rw [hmiddle, htokens, List.length_cons, List.length_cons]
    omega
  refine Follows.of_iff (follows_accept (by decide)
    (fun keyword middle hmiddle hkeyword => follows_head_bind (follows_accept (by decide)
      (fun second tokens htokens hsecond =>
        follows_bind (hnested hmiddle htokens hsecond) fun _ _ _ => follows_pure)
      fun hother => follows_bind (follows_keywordBlock (hinner.goTo ?_) (by decide) ?_)
        fun _ _ _ => follows_pure))
    fun _ => follows_pure) fun found rest => ?_
  · rw [hmiddle, List.length_cons]
    omega
  · rw [hmiddle, List.length_cons] at hbound
    rw [Cursor.rest_goTo]
    omega
  · constructor
    · rintro (⟨keyword, middle, hrest, hkeyword, ⟨second, tokens, rfl, hsecond, _, _,
          ⟨branch, hbranch, rfl⟩, rfl, rfl⟩ | ⟨-, _, _, ⟨body, hbody, rfl⟩, rfl, rfl⟩⟩ |
        ⟨hnext, rfl, rfl⟩)
      · exact ⟨.chained branch, hrest ▸ .chained hkeyword hbranch, rfl⟩
      · exact ⟨.body body, hrest ▸ .body hkeyword hbody, rfl⟩
      · exact ⟨.nothing, .nothing hnext, rfl⟩
    · rintro ⟨otherwise, hspelled, rfl⟩
      generalize cursor.rest = tokens at hspelled
      cases hspelled with
      | nothing hnext => exact .inr ⟨hnext, rfl, rfl⟩
      | body hkeyword hbody =>
          refine .inl ⟨_, _, rfl, hkeyword, .inr ⟨?_, _, _, ⟨_, hbody, rfl⟩, rfl, rfl⟩⟩
          cases hbody with
          | mk hopening _ _ _ _ =>
              rw [List.headD_cons, hopening]
              decide
      | chained hkeyword hbranch =>
          refine .inl ⟨_, _, rfl, hkeyword, .inl ?_⟩
          have hspelled := hbranch
          cases hbranch with
          | mk hsecond _ _ _ _ _ =>
              exact ⟨_, _, rfl, hsecond, _, _, ⟨_, hspelled, rfl⟩, rfl, rfl⟩

/-- The keyword `IF` has been consumed before. -/
theorem follows_conditionalFrom (hinner : FollowsPhrases inner cursor)
    (hbound : cursor.rest.length ≤ bound) {keyword : Token} (hkeyword : keyword.kind = .kwIf) :
    (conditionalFrom inner bound keyword.line).Follows cursor fun tokens found rest =>
      ∃ branch, Branch.Spelled (keyword :: tokens) branch rest ∧ found = branch.lower := by
  induction bound generalizing cursor keyword with
  | zero =>
      refine follows_fail.of_iff fun found rest => ?_
      simp only [false_iff]
      rintro ⟨branch, hbranch, -⟩
      have hempty : cursor.rest = [] := List.length_eq_zero_iff.mp (Nat.le_zero.mp hbound)
      rw [hempty] at hbranch
      cases hbranch
  | succ bound ih =>
      rw [conditionalFrom_succ]
      refine Follows.of_iff (follows_guarded (by decide) hinner hbound
        fun condition thenBranch later hlater => follows_otherwiseFrom (hinner.goTo ?_) ?_
          fun keyword tokens hkeyword htokens hphrases => ih hphrases htokens hkeyword)
        fun found rest => ?_
      · exact Nat.le_of_lt hlater
      · exact Nat.le_trans (Nat.le_of_lt hlater) hbound
      · constructor
        · rintro ⟨opening, inside, ⟨hrest, hopening⟩, condition, middle, hcondition, closing, after,
            ⟨rfl, hclosing⟩, _, later, ⟨body, hbody, rfl⟩, otherwise, hotherwise, rfl⟩
          exact ⟨.mk condition body otherwise keyword.line,
            hrest ▸ .mk hkeyword hopening hcondition hclosing hbody hotherwise, rfl⟩
        · rintro ⟨branch, hbranch, rfl⟩
          generalize cursor.rest = tokens at hbranch
          cases hbranch with
          | mk _ hopening hcondition hclosing hbody hotherwise =>
              exact ⟨_, _, ⟨rfl, hopening⟩, _, _, hcondition, _, _, ⟨rfl, hclosing⟩, _, _,
                ⟨_, hbody, rfl⟩, _, hotherwise, rfl⟩

/-- The keyword `WHILE` has been consumed before. -/
theorem follows_loopFrom (hinner : FollowsPhrases inner cursor)
    (hbound : cursor.rest.length ≤ bound) {keyword : Token} (hkeyword : keyword.kind = .kwWhile) :
    (loopFrom inner bound keyword.line).Follows cursor fun tokens found rest =>
      ∃ condition body,
        Phrase.Spelled (keyword :: tokens) (.loop condition body keyword.line) rest ∧
        found = .loop condition body.lower keyword.line := by
  refine Follows.of_iff (follows_guarded (by decide) hinner hbound fun _ _ _ _ => follows_pure)
    fun found rest => ?_
  constructor
  · rintro ⟨opening, inside, ⟨hrest, hopening⟩, condition, middle, hcondition, closing, after,
      ⟨rfl, hclosing⟩, _, later, ⟨body, hbody, rfl⟩, rfl, rfl⟩
    exact ⟨condition, body, hrest ▸ .loop hkeyword hopening hcondition hclosing hbody, rfl⟩
  · rintro ⟨condition, body, hloop, rfl⟩
    generalize cursor.rest = tokens at hloop
    cases hloop with
    | loop _ hopening hcondition hclosing hbody =>
        exact ⟨_, _, ⟨rfl, hopening⟩, _, _, hcondition, _, _, ⟨rfl, hclosing⟩, _, _,
          ⟨_, hbody, rfl⟩, rfl, rfl⟩

omit [Forward inner] in
theorem follows_forClause (hbound : cursor.rest.length ≤ bound) :
    (forClause bound).Follows cursor fun tokens found rest =>
      ∃ initializer, Initializer.Spelled tokens initializer rest ∧ found = initializer.lower := by
  rw [forClause]
  refine follows_head_bind ?_
  cases htype : cursor.head.kind.valueType? with
  | some type =>
      have hnotEnd : cursor.head.kind ≠ .endOfInput := by
        intro hend
        rw [hend] at htype
        cases htype
      obtain ⟨rest, hrest, -⟩ := Cursor.rest_eq_cons hnotEnd
      have hlength : rest.length ≤ bound := by
        rw [hrest, List.length_cons] at hbound
        omega
      refine Follows.of_iff (follows_advance_bind hrest hnotEnd
        (follows_declarator type hlength)) fun found last => ?_
      rw [hrest, List.tail_cons]
      constructor
      · rintro ⟨written, hwritten, rfl⟩
        exact ⟨.declared type written, .declared htype hwritten, rfl⟩
      · rintro ⟨initializer, hspelled, rfl⟩
        cases hspelled with
        | declared hkeyword hwritten =>
            cases htype.symm.trans hkeyword
            exact ⟨_, hwritten, rfl⟩
        | expression hexpr =>
            obtain ⟨first, others, hfirst, hbegins⟩ := hexpr.1.begins
            cases hfirst
            rw [Kind.valueType?_of_phrase (Kind.beginsPhrase_of_operand hbegins)] at htype
            cases htype
  | none =>
      refine Follows.of_iff (follows_bind (Expr.follows_readWithin hbound) fun _ _ _ =>
        follows_pure) fun found last => ?_
      constructor
      · rintro ⟨expr, middle, hexpr, rfl, rfl⟩
        exact ⟨.expression expr, .expression hexpr, rfl⟩
      · rintro ⟨initializer, hspelled, rfl⟩
        generalize htokens : cursor.rest = tokens at hspelled
        cases hspelled with
        | declared hkeyword _ =>
            rw [Cursor.head_eq, htokens, List.headD_cons, hkeyword] at htype
            cases htype
        | expression hexpr => exact ⟨_, _, hexpr, rfl, rfl⟩

omit [Forward inner] in
theorem follows_forInitializer (hbound : cursor.rest.length ≤ bound) :
    (forInitializer bound).Follows cursor fun tokens found rest =>
      ∃ initializer, Clause Initializer.Spelled .semicolon tokens initializer rest ∧
        found = initializer.map Initializer.lower := by
  refine Follows.of_iff (follows_accept (by decide) (fun _ _ _ _ => follows_pure) fun _ =>
    follows_bind (follows_forClause hbound) fun _ _ _ =>
    follows_bind (follows_expect (by decide)) fun _ _ _ => follows_pure) fun found rest => ?_
  constructor
  · rintro (⟨close, middle, hrest, hclose, rfl, rfl⟩ |
      ⟨-, _, middle, ⟨initializer, hspelled, rfl⟩, close, last, ⟨rfl, hclose⟩, rfl, rfl⟩)
    · exact ⟨none, hrest ▸ .empty hclose, rfl⟩
    · exact ⟨some initializer, .filled hspelled hclose, rfl⟩
  · rintro ⟨initializer, hclause, rfl⟩
    generalize cursor.rest = tokens at hclause
    cases hclause with
    | empty hclose => exact .inl ⟨_, _, rfl, hclose, rfl, rfl⟩
    | filled hspelled hclose =>
        exact .inr ⟨hspelled.head_ne, _, _, ⟨_, hspelled, rfl⟩, _, _, ⟨rfl, hclose⟩, rfl, rfl⟩

omit [Forward inner] in
theorem follows_optionalClause {closing : Kind} (hbound : cursor.rest.length ≤ bound) :
    (optionalClause closing bound).Follows cursor fun tokens found rest =>
      ((tokens.headD .pastEnd).kind = closing ∧ found = none ∧ rest = tokens) ∨
      ((tokens.headD .pastEnd).kind ≠ closing ∧
        ∃ expr, Expr.Spelled tokens expr rest ∧ found = some expr) := by
  rw [optionalClause]
  refine follows_get_bind ?_
  by_cases hhead : cursor.head.kind = closing
  · rw [if_pos (by simp [Cursor.sees, hhead])]
    refine follows_pure.of_iff fun found rest => ?_
    rw [← Cursor.head_eq]
    simp [hhead]
  · rw [if_neg (by simp [Cursor.sees, hhead])]
    refine Follows.of_iff (follows_bind (Expr.follows_readWithin hbound) fun _ _ _ =>
      follows_pure) fun found rest => ?_
    rw [← Cursor.head_eq]
    constructor
    · rintro ⟨expr, middle, hexpr, rfl, rfl⟩
      exact .inr ⟨hhead, expr, hexpr, rfl⟩
    · rintro (⟨hsame, -⟩ | ⟨-, expr, hexpr, rfl⟩)
      · exact absurd hsame hhead
      · exact ⟨expr, rest, hexpr, rfl, rfl⟩

/-- A clause and the token that closes it. -/
theorem clause_iff {closing : Kind} (hclosing : closing.beginsOperand = false)
    {tokens rest : List Token} {found : Option Expr} :
    (∃ middle close, (((tokens.headD .pastEnd).kind = closing ∧ found = none ∧ middle = tokens) ∨
        ((tokens.headD .pastEnd).kind ≠ closing ∧
          ∃ expr, Expr.Spelled tokens expr middle ∧ found = some expr)) ∧
        middle = close :: rest ∧ close.kind = closing) ↔
      Clause Expr.Spelled closing tokens found rest := by
  constructor
  · rintro ⟨middle, close, ⟨-, rfl, rfl⟩ | ⟨-, expr, hexpr, rfl⟩, rfl, hclose⟩
    · exact .empty hclose
    · exact .filled hexpr hclose
  · intro hclause
    cases hclause with
    | empty hclose => exact ⟨_, _, .inl ⟨hclose, rfl, rfl⟩, rfl, hclose⟩
    | filled hexpr hclose =>
        exact ⟨_, _, .inr ⟨hexpr.head_ne hclosing, _, hexpr, rfl⟩, rfl, hclose⟩

theorem follows_forLoopFrom (hinner : FollowsPhrases inner cursor)
    (hbound : cursor.rest.length ≤ bound) {keyword : Token} (hkeyword : keyword.kind = .kwFor) :
    (forLoopFrom inner bound keyword.line).Follows cursor fun tokens found rest =>
      ∃ initializer condition increment body,
        Phrase.Spelled (keyword :: tokens)
          (.forLoop initializer condition increment body keyword.line) rest ∧
        found = (Phrase.forLoop initializer condition increment body keyword.line).lower := by
  -- The clauses of the head get shorter and shorter, which keeps every reader within its bound.
  have hsecond {opening : Token} {inside second : List Token} {found : Option Stmt}
      (hopening : cursor.rest = opening :: inside)
      (hclause : ∃ initializer, Clause Initializer.Spelled .semicolon inside initializer second ∧
        found = initializer.map Initializer.lower) : second.length < cursor.rest.length := by
    obtain ⟨initializer, hclause, -⟩ := hclause
    have hlength := hclause.length_lt Initializer.Spelled.length_lt
    rw [hopening, List.length_cons]
    omega
  have hnext {closing : Kind} {tokens rest : List Token} {found : Option Expr}
      (hclause : Clause Expr.Spelled closing tokens found rest) : rest.length < tokens.length :=
    hclause.length_lt Expr.Spelled.length_lt
  refine Follows.of_iff (follows_bind (follows_expect (by decide)) fun opening inside hopening =>
    follows_bind (follows_forInitializer ?_) fun _ second hinitializer =>
    follows_bind (follows_optionalClause ?_) fun condition afterCondition hcondition =>
    follows_bind (follows_expect (by decide)) fun semicolon third hsemicolon =>
    follows_bind (follows_optionalClause ?_) fun increment afterIncrement hincrement =>
    follows_bind (follows_expect (by decide)) fun closing middle hclosing =>
    follows_bind (follows_keywordBody (hinner.goTo ?_) (by decide) ?_) fun _ _ _ =>
    follows_pure) fun found rest => ?_
  · rw [hopening.1, List.length_cons] at hbound
    exact Nat.le_of_lt hbound
  · exact Nat.le_trans (Nat.le_of_lt (hsecond hopening.1 hinitializer)) hbound
  · have hshorter := hsecond hopening.1 hinitializer
    have hthird := hnext ((clause_iff rfl).mp ⟨_, _, hcondition, hsemicolon⟩)
    simp only [Cursor.rest_goTo] at hthird ⊢
    omega
  · have hshorter := hsecond hopening.1 hinitializer
    have hthird := hnext ((clause_iff rfl).mp ⟨_, _, hcondition, hsemicolon⟩)
    have hmiddle := hnext ((clause_iff rfl).mp ⟨_, _, hincrement, hclosing⟩)
    simp only [Cursor.rest_goTo] at hthird hmiddle
    omega
  · have hshorter := hsecond hopening.1 hinitializer
    have hthird := hnext ((clause_iff rfl).mp ⟨_, _, hcondition, hsemicolon⟩)
    have hmiddle := hnext ((clause_iff rfl).mp ⟨_, _, hincrement, hclosing⟩)
    simp only [Cursor.rest_goTo] at hthird hmiddle ⊢
    omega
  · constructor
    · rintro ⟨opening, inside, ⟨hrest, hopening⟩, _, second, ⟨initializer, hinitializer, rfl⟩,
        condition, _, hcondition, semicolon, third, hsemicolon, increment, _, hincrement, closing,
        middle, hclosing, ⟨bodyLine, statements⟩, last, ⟨phrases, hbody, rfl⟩, rfl, rfl⟩
      refine ⟨initializer, condition, increment, .mk phrases bodyLine, ?_,
        (Phrase.lower_forLoop ..).symm⟩
      rw [hrest]
      exact .forLoop hkeyword hopening hinitializer
        ((clause_iff rfl).mp ⟨_, _, hcondition, hsemicolon⟩)
        ((clause_iff rfl).mp ⟨_, _, hincrement, hclosing⟩) hbody
    · rintro ⟨initializer, condition, increment, ⟨phrases, bodyLine⟩, hloop, rfl⟩
      generalize cursor.rest = tokens at hloop
      cases hloop with
      | forLoop _ hopening hinitializer hcondition hincrement hbody =>
          obtain ⟨_, semicolon, hcondition, hsemicolon⟩ := (clause_iff rfl).mpr hcondition
          obtain ⟨_, closing, hincrement, hclosing⟩ := (clause_iff rfl).mpr hincrement
          exact ⟨_, _, ⟨rfl, hopening⟩, _, _, ⟨_, hinitializer, rfl⟩, _, _, hcondition, _, _,
            hsemicolon, _, _, hincrement, _, _, hclosing, (bodyLine, _), _, ⟨phrases, hbody, rfl⟩,
            Phrase.lower_forLoop .., rfl⟩

end Control

/-! ### Statements and items -/

section Items

variable {inner : Reading (List Stmt)} [Forward inner] {cursor : Cursor} {bound : Nat}

/-- The same position after an executable statement has begun. -/
def started (cursor : Cursor) : Cursor := { cursor with executable := true }

theorem reads_startExecutable_bind {α : Type} {next : Unit → Reading α} {result : α}
    {later : Cursor} :
    (startExecutable >>= next).Reads cursor result later ↔
      (next ()).Reads (started cursor) result later := .rfl

theorem started_goTo (tokens : List Token) :
    started (cursor.goTo tokens) = (started cursor).goTo tokens := rfl

section Keywords

variable {keyword : Token} {tokens : List Token} {found : Stmt} {later : Cursor}

/-- A statement that begins with its keyword. -/
theorem reads_begun {reader : Reading Stmt} {grammar : List Token → Stmt → List Token → Prop}
    (hrest : cursor.rest = keyword :: tokens) (hkeyword : keyword.kind ≠ .endOfInput)
    (hreader : reader.Follows ((started cursor).goTo tokens) grammar) :
    (advance >>= fun _ => startExecutable >>= fun _ => reader).Reads cursor found later ↔
      ∃ rest, grammar tokens found rest ∧ later = (started cursor).goTo rest := by
  rw [reads_advance_bind, Cursor.advance_cons hrest hkeyword, reads_startExecutable_bind,
    started_goTo]
  exact hreader.reads_iff

/-- A statement that begins with its keyword and a colon. -/
theorem reads_begun_colon {reader : Reading Stmt} [Forward reader] {message : String}
    {grammar : List Token → Stmt → List Token → Prop}
    (hrest : cursor.rest = keyword :: tokens) (hkeyword : keyword.kind ≠ .endOfInput)
    (hreader : ∀ others, others.length < tokens.length →
      reader.Follows ((started cursor).goTo others) grammar) :
    (advance >>= fun _ => expect .colon message >>= fun _ =>
      startExecutable >>= fun _ => reader).Reads cursor found later ↔
      ∃ colon others rest, tokens = colon :: others ∧ colon.kind = .colon ∧
        grammar others found rest ∧ later = (started cursor).goTo rest := by
  rw [reads_advance_bind, Cursor.advance_cons hrest hkeyword, reads_bind]
  simp only [reads_expect (show Kind.colon ≠ .endOfInput by decide), reads_startExecutable_bind,
    Cursor.rest_goTo, Cursor.goTo_goTo]
  constructor
  · rintro ⟨colon, _, ⟨hcolon, others, rfl, rfl⟩, hreads⟩
    obtain ⟨rest, hfound, rfl⟩ := (hreader others (Nat.lt_succ_self _)).reads_iff.mp hreads
    exact ⟨colon, others, rest, rfl, hcolon, hfound, rfl⟩
  · rintro ⟨colon, others, rest, rfl, hcolon, hfound, rfl⟩
    exact ⟨colon, _, ⟨hcolon, others, rfl, rfl⟩,
      (hreader others (Nat.lt_succ_self _)).reads_iff.mpr ⟨rest, hfound, rfl⟩⟩

theorem reads_statement_if (hrest : cursor.rest = keyword :: tokens)
    (hkeyword : keyword.kind = .kwIf) (hbound : tokens.length ≤ bound)
    (hinner : FollowsPhrases inner ((started cursor).goTo tokens)) :
    (statement inner bound).Reads cursor found later ↔
      ∃ rest, (∃ branch, Branch.Spelled (keyword :: tokens) branch rest ∧ found = branch.lower) ∧
        later = (started cursor).goTo rest := by
  rw [statement, reads_head_bind, Cursor.head_cons hrest, hkeyword]
  exact reads_begun hrest (by rw [hkeyword]; decide)
    (follows_conditionalFrom hinner hbound hkeyword)

theorem reads_statement_while (hrest : cursor.rest = keyword :: tokens)
    (hkeyword : keyword.kind = .kwWhile) (hbound : tokens.length ≤ bound)
    (hinner : FollowsPhrases inner ((started cursor).goTo tokens)) :
    (statement inner bound).Reads cursor found later ↔
      ∃ rest, (∃ condition body,
        Phrase.Spelled (keyword :: tokens) (.loop condition body keyword.line) rest ∧
          found = .loop condition body.lower keyword.line) ∧
        later = (started cursor).goTo rest := by
  rw [statement, reads_head_bind, Cursor.head_cons hrest, hkeyword]
  exact reads_begun hrest (by rw [hkeyword]; decide) (follows_loopFrom hinner hbound hkeyword)

theorem reads_statement_for (hrest : cursor.rest = keyword :: tokens)
    (hkeyword : keyword.kind = .kwFor) (hbound : tokens.length ≤ bound)
    (hinner : FollowsPhrases inner ((started cursor).goTo tokens)) :
    (statement inner bound).Reads cursor found later ↔
      ∃ rest, (∃ initializer condition increment body,
        Phrase.Spelled (keyword :: tokens)
          (.forLoop initializer condition increment body keyword.line) rest ∧
          found = (Phrase.forLoop initializer condition increment body keyword.line).lower) ∧
        later = (started cursor).goTo rest := by
  rw [statement, reads_head_bind, Cursor.head_cons hrest, hkeyword]
  exact reads_begun hrest (by rw [hkeyword]; decide) (follows_forLoopFrom hinner hbound hkeyword)

omit [Forward inner] in
theorem reads_statement_display (hrest : cursor.rest = keyword :: tokens)
    (hkeyword : keyword.kind = .kwDisplay) (hbound : tokens.length ≤ bound) :
    (statement inner bound).Reads cursor found later ↔
      ∃ value rest, Phrase.Spelled (keyword :: tokens) (.display value keyword.line) rest ∧
        found = .display value keyword.line ∧ later = (started cursor).goTo rest := by
  rw [statement, reads_head_bind, Cursor.head_cons hrest, hkeyword]
  refine (reads_begun_colon hrest (by rw [hkeyword]; decide) fun others hothers =>
    follows_bind (Expr.follows_readWithin ?_) fun _ _ _ => follows_pure).trans ?_
  · exact Nat.le_trans (Nat.le_of_lt hothers) hbound
  constructor
  · rintro ⟨colon, others, rest, rfl, hcolon, ⟨value, _, hspelled, rfl, rfl⟩, rfl⟩
    exact ⟨value, rest, .display hkeyword hcolon hspelled, rfl, rfl⟩
  · rintro ⟨value, rest, hspelled, rfl, rfl⟩
    cases hspelled with
    | display _ hcolon hspelled =>
        exact ⟨_, _, rest, rfl, hcolon, ⟨value, rest, hspelled, rfl, rfl⟩, rfl⟩

omit [Forward inner] in
theorem reads_statement_scan (hrest : cursor.rest = keyword :: tokens)
    (hkeyword : keyword.kind = .kwScan) (hbound : tokens.length ≤ bound) :
    (statement inner bound).Reads cursor found later ↔
      ∃ first others rest,
        Phrase.Spelled (keyword :: tokens) (.scan first others keyword.line) rest ∧
        found = .scan (first :: others) keyword.line ∧ later = (started cursor).goTo rest := by
  rw [statement, reads_head_bind, Cursor.head_cons hrest, hkeyword]
  refine (reads_begun_colon hrest (by rw [hkeyword]; decide) fun others hothers =>
    follows_bind (follows_separated Token.Named.length_lt ?_ fun _ _ => follows_expect (by decide))
      fun _ _ _ => follows_pure).trans ?_
  · exact Nat.le_trans (Nat.le_of_lt hothers) hbound
  constructor
  · rintro ⟨colon, others, rest, rfl, hcolon, ⟨names, _, hlisted, rfl, rfl⟩, rfl⟩
    obtain ⟨first, more, rfl⟩ := List.exists_cons_of_ne_nil hlisted.ne_nil
    exact ⟨first, more, rest, .scan hkeyword hcolon hlisted, rfl, rfl⟩
  · rintro ⟨first, more, rest, hspelled, rfl, rfl⟩
    cases hspelled with
    | scan _ hcolon hlisted =>
        exact ⟨_, _, rest, rfl, hcolon, ⟨_, rest, hlisted, rfl, rfl⟩, rfl⟩

end Keywords

/-- The keywords that begin a statement of their own. -/
def beginsKeyword : Kind → Bool
  | .kwIf | .kwWhile | .kwFor | .kwDisplay | .kwScan => true
  | _ => false

theorem beginsKeyword_eq_true {kind : Kind} : beginsKeyword kind = true ↔
    kind = .kwIf ∨ kind = .kwWhile ∨ kind = .kwFor ∨ kind = .kwDisplay ∨ kind = .kwScan := by
  cases kind <;> simp [beginsKeyword]

theorem beginsKeyword_of_operand {kind : Kind} (hkind : kind.beginsOperand = true) :
    beginsKeyword kind = false := by
  cases kind <;> first | rfl | cases hkind

omit [Forward inner] in
theorem reads_statement_expression (hkind : beginsKeyword cursor.head.kind = false)
    (hbound : cursor.rest.length ≤ bound) {found : Stmt} {later : Cursor} :
    (statement inner bound).Reads cursor found later ↔
      ∃ expr rest, Expr.Spelled cursor.rest expr rest ∧ found = .ofExpr expr ∧
        later = (started cursor).goTo rest := by
  have hstatement : (statement inner bound).Reads cursor found later ↔
      (Expr.readWithin bound >>= fun expr => pure (.ofExpr expr)).Reads (started cursor) found
        later := by
    rw [statement, reads_head_bind]
    split
    case h_6 => exact reads_startExecutable_bind
    all_goals
      rename_i hhead
      rw [hhead] at hkind
      cases hkind
  have hfollows : (Expr.readWithin bound).Follows (started cursor) Expr.Spelled :=
    Expr.follows_readWithin hbound
  rw [hstatement, reads_bind]
  constructor
  · rintro ⟨expr, _, hread, hfound⟩
    obtain ⟨rest, hspelled, rfl⟩ := hfollows.reads_iff.mp hread
    obtain ⟨rfl, rfl⟩ := reads_pure.mp hfound
    exact ⟨expr, rest, hspelled, rfl, rfl⟩
  · rintro ⟨expr, rest, hspelled, rfl, rfl⟩
    exact ⟨expr, _, hfollows.reads_iff.mpr ⟨rest, hspelled, rfl⟩, reads_pure.mpr ⟨rfl, rfl⟩⟩

theorem statement_sound (hbound : cursor.rest.length ≤ bound)
    (hinner : ∀ tokens, tokens.length < cursor.rest.length →
      FollowsPhrases inner ((started cursor).goTo tokens)) {found : Stmt} {later : Cursor}
    (hreads : (statement inner bound).Reads cursor found later) :
    ∃ phrase rest, Phrase.Spelled cursor.rest phrase rest ∧ found = phrase.lower ∧
      later = (started cursor).goTo rest := by
  cases hbegins : beginsKeyword cursor.head.kind with
  | false =>
      obtain ⟨expr, rest, hexpr, rfl, rfl⟩ := (reads_statement_expression hbegins hbound).mp hreads
      exact ⟨_, rest, .expression hexpr, rfl, rfl⟩
  | true =>
      have hkind : cursor.head.kind ≠ .endOfInput := by
        intro hkind
        rw [hkind] at hbegins
        cases hbegins
      obtain ⟨tokens, hrest, -⟩ := Cursor.rest_eq_cons hkind
      have hinner := hinner tokens (by rw [hrest, List.length_cons]; omega)
      rw [hrest] at hbound ⊢
      have hlength : tokens.length ≤ bound := Nat.le_of_lt hbound
      rcases beginsKeyword_eq_true.mp hbegins with hif | hwhile | hfor | hdisplay | hscan
      · obtain ⟨rest, ⟨branch, hbranch, rfl⟩, rfl⟩ :=
          (reads_statement_if hrest hif hlength hinner).mp hreads
        exact ⟨_, rest, .conditional hbranch, rfl, rfl⟩
      · obtain ⟨rest, ⟨condition, body, hphrase, rfl⟩, rfl⟩ :=
          (reads_statement_while hrest hwhile hlength hinner).mp hreads
        exact ⟨_, rest, hphrase, rfl, rfl⟩
      · obtain ⟨rest, ⟨initializer, condition, increment, body, hphrase, rfl⟩, rfl⟩ :=
          (reads_statement_for hrest hfor hlength hinner).mp hreads
        exact ⟨_, rest, hphrase, rfl, rfl⟩
      · obtain ⟨value, rest, hphrase, rfl, rfl⟩ :=
          (reads_statement_display hrest hdisplay hlength).mp hreads
        exact ⟨_, rest, hphrase, rfl, rfl⟩
      · obtain ⟨first, others, rest, hphrase, rfl, rfl⟩ :=
          (reads_statement_scan hrest hscan hlength).mp hreads
        exact ⟨_, rest, hphrase, rfl, rfl⟩

theorem statement_complete (hbound : cursor.rest.length ≤ bound)
    (hinner : ∀ tokens, tokens.length < cursor.rest.length →
      FollowsPhrases inner ((started cursor).goTo tokens)) {phrase : Phrase} {rest : List Token}
    (hphrase : Phrase.Spelled cursor.rest phrase rest) :
    (statement inner bound).Reads cursor phrase.lower ((started cursor).goTo rest) := by
  obtain ⟨first, others, hrest, -⟩ := hphrase.begins
  have hinner := hinner others (by rw [hrest, List.length_cons]; omega)
  have hlength : others.length ≤ bound := by
    rw [hrest] at hbound
    exact Nat.le_of_lt hbound
  rw [hrest] at hphrase
  have hspelled := hphrase
  cases hspelled with
  | display hkeyword _ _ =>
      exact (reads_statement_display hrest hkeyword hlength).mpr ⟨_, rest, hphrase, rfl, rfl⟩
  | scan hkeyword _ _ =>
      exact (reads_statement_scan hrest hkeyword hlength).mpr ⟨_, _, rest, hphrase, rfl, rfl⟩
  | expression hexpr =>
      have hbegins : beginsKeyword cursor.head.kind = false := by
        obtain ⟨operand, more, hoperand, hbegins⟩ := hexpr.1.begins
        rw [Cursor.head_eq, hrest, hoperand, List.headD_cons]
        exact beginsKeyword_of_operand hbegins
      exact (reads_statement_expression hbegins hbound).mpr
        ⟨_, rest, hrest ▸ hexpr, rfl, rfl⟩
  | conditional hbranch =>
      have hkeyword : first.kind = .kwIf := by
        cases hbranch with
        | mk hkeyword _ _ _ _ _ => exact hkeyword
      exact (reads_statement_if hrest hkeyword hlength hinner).mpr
        ⟨rest, ⟨_, hbranch, rfl⟩, rfl⟩
  | loop hkeyword _ _ _ _ =>
      exact (reads_statement_while hrest hkeyword hlength hinner).mpr
        ⟨rest, ⟨_, _, hphrase, rfl⟩, rfl⟩
  | forLoop hkeyword _ _ _ _ _ =>
      exact (reads_statement_for hrest hkeyword hlength hinner).mpr
        ⟨rest, ⟨_, _, _, _, hphrase, rfl⟩, rfl⟩

/-- A program block inside another one is reported. -/
theorem not_reads_codeBlock (hcode : cursor.codeSeen = true) {found : List Stmt} {later : Cursor} :
    ¬(codeBlock inner bound).Reads cursor found later := by
  rw [codeBlock, reads_get_bind, reads_advance_bind, reads_advance_bind, hcode, if_pos rfl,
    reads_bind]
  rintro ⟨_, _, hreport, -⟩
  exact not_reads_report hreport

theorem item_sound (hcode : cursor.codeSeen = true) (hbound : cursor.rest.length ≤ bound)
    (hinner : ∀ tokens, tokens.length < cursor.rest.length →
      FollowsPhrases inner ((started cursor).goTo tokens)) {found : List Stmt} {later : Cursor}
    (hreads : (item inner bound).Reads cursor found later) :
    (cursor.executable = false ∧ ∃ declaration rest,
        Declaration.Spelled cursor.rest declaration rest ∧ found = declaration.lower ∧
          later = cursor.goTo rest) ∨
      ∃ phrase rest, Phrase.Spelled cursor.rest phrase rest ∧ found = [phrase.lower] ∧
        later = (started cursor).goTo rest := by
  rw [item, reads_get_bind] at hreads
  split at hreads
  · rename_i type htype
    have hkind : cursor.head.kind ≠ .endOfInput := by
      intro hkind
      rw [hkind] at htype
      cases htype
    obtain ⟨tokens, hrest, hadvance⟩ := Cursor.rest_eq_cons hkind
    rw [reads_advance_bind, hadvance] at hreads
    cases hexecutable : cursor.executable with
    | true => exact absurd hreads (not_reads_declarations hexecutable)
    | false =>
        have hlength : (cursor.goTo tokens).rest.length ≤ bound := by
          rw [hrest, List.length_cons] at hbound
          rw [Cursor.rest_goTo]
          omega
        obtain ⟨rest, ⟨written, hlisted, rfl⟩, rfl⟩ :=
          (follows_declarations type _ hlength hexecutable).reads_iff.mp hreads
        obtain ⟨first, others, rfl⟩ := List.exists_cons_of_ne_nil hlisted.ne_nil
        exact .inl ⟨rfl, ⟨type, first, others⟩, rest, hrest ▸ .mk htype hlisted, rfl, rfl⟩
  · split at hreads
    · exact absurd hreads (not_reads_codeBlock hcode)
    · rw [reads_bind] at hreads
      obtain ⟨statement, _, hstatement, hfound⟩ := hreads
      obtain ⟨rfl, rfl⟩ := reads_pure.mp hfound
      obtain ⟨phrase, rest, hphrase, rfl, rfl⟩ := statement_sound hbound hinner hstatement
      exact .inr ⟨phrase, rest, hphrase, rfl, rfl⟩

omit [Forward inner] in
theorem item_complete_declaration (hexecutable : cursor.executable = false)
    (hbound : cursor.rest.length ≤ bound) {declaration : Declaration} {rest : List Token}
    (hdeclaration : Declaration.Spelled cursor.rest declaration rest) :
    (item inner bound).Reads cursor declaration.lower (cursor.goTo rest) := by
  generalize htokens : cursor.rest = tokens at hdeclaration
  cases hdeclaration with
  | @mk keyword tokens _ type first others hkeyword hnames =>
      have hkind : keyword.kind ≠ .endOfInput := by
        intro hkind
        rw [hkind] at hkeyword
        cases hkeyword
      have hhead : cursor.head = keyword := Cursor.head_cons htokens
      have hlength : (cursor.goTo tokens).rest.length ≤ bound := by
        rw [htokens, List.length_cons] at hbound
        rw [Cursor.rest_goTo]
        omega
      rw [item, reads_get_bind, hhead, hkeyword, reads_advance_bind,
        Cursor.advance_cons htokens hkind]
      exact (follows_declarations type _ hlength hexecutable).reads_iff.mpr
        ⟨rest, ⟨first :: others, hnames, rfl⟩, rfl⟩

theorem item_complete_phrase (hbound : cursor.rest.length ≤ bound)
    (hinner : ∀ tokens, tokens.length < cursor.rest.length →
      FollowsPhrases inner ((started cursor).goTo tokens)) {phrase : Phrase} {rest : List Token}
    (hphrase : Phrase.Spelled cursor.rest phrase rest) :
    (item inner bound).Reads cursor [phrase.lower] ((started cursor).goTo rest) := by
  obtain ⟨first, others, hrest, hbegins⟩ := hphrase.begins
  have hhead : cursor.head = first := Cursor.head_cons hrest
  have hpair : ¬cursor.seesPair .kwBegin .kwCode = true := by
    rw [Cursor.seesPair_eq_true]
    rintro ⟨one, two, more, hpair, hone, -⟩
    rw [hrest] at hpair
    rw [(List.cons.inj hpair).1, hone] at hbegins
    cases hbegins
  rw [item, reads_get_bind, hhead, Token.Kind.valueType?_of_phrase hbegins, if_neg hpair,
    reads_bind]
  exact ⟨_, _, statement_complete hbound hinner hphrase, reads_pure.mpr ⟨rfl, rfl⟩⟩

/-- Recovery from an error leaves it in the report. -/
theorem reads_recovering {construct : Reading (List Stmt)} [forward : Forward construct]
    {found : List Stmt} {later : Cursor} :
    (recovering construct).Reads cursor found later ↔ construct.Reads cursor found later := by
  have hleads := forward.leadsTo cursor
  unfold Reads
  rw [run_recovering]
  cases hrun : construct.run cursor with
  | ok result after => rfl
  | error error after =>
      rw [final_of_error hrun] at hleads
      have hresume := (after.addError error).leadsTo_resume cursor.rest.length
      constructor
      · rintro ⟨hsame, hreport⟩
        cases hsame
        have hgrown := hleads.report.length_le
        have hlater := hresume.report.length_le
        rw [hreport] at hlater
        simp only [Cursor.addError, Report.add, List.length_append, List.length_cons] at hlater
        omega
      · rintro ⟨hsame, -⟩
        cases hsame

end Items

/-- Inside a body, once executable statements have begun, items are phrases. -/
theorem followsPhrases_readItem {bound : Nat} {cursor : Cursor} (hcode : cursor.codeSeen = true)
    (hexecutable : cursor.executable = true) (hbound : cursor.rest.length < bound) :
    FollowsPhrases (readItem bound) cursor := by
  induction bound generalizing cursor with
  | zero => omega
  | succ bound ih =>
      intro tokens htokens
      have hstarted : started cursor = cursor := by rw [started, ← hexecutable]
      have hinner : ∀ fewer, fewer.length < tokens.length →
          FollowsPhrases (readItem bound) ((started (cursor.goTo tokens)).goTo fewer) := by
        intro fewer hfewer
        refine ih hcode rfl ?_
        simp only [Cursor.rest_goTo]
        omega
      have hlength : (cursor.goTo tokens).rest.length ≤ bound + 1 := by
        simp only [Cursor.rest_goTo]
        omega
      have hcode : (cursor.goTo tokens).codeSeen = true := hcode
      refine ⟨fun {found later} => ?_⟩
      rw [readItem, reads_recovering]
      constructor
      · intro hreads
        rcases item_sound hcode hlength hinner hreads with ⟨hdeclares, -⟩ |
          ⟨phrase, rest, hphrase, rfl, rfl⟩
        · rw [Cursor.executable_goTo, hexecutable] at hdeclares
          cases hdeclares
        · exact ⟨rest, ⟨phrase, hphrase, rfl⟩, by rw [started_goTo, hstarted]⟩
      · rintro ⟨rest, ⟨phrase, hphrase, rfl⟩, rfl⟩
        have hreads := item_complete_phrase hlength hinner hphrase
        rwa [started_goTo, hstarted] at hreads

end BeginCode.Stmt
