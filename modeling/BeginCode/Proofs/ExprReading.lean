import BeginCode.Proofs.ExprGrammar
import BeginCode.Proofs.Forward

/-!
# Reading expressions follows their grammar

With a bound of at least the number of tokens left, reading an expression succeeds silently exactly
where the grammar derives one, and then takes the longest. Both directions go level by level: a
reader for the operands of a level gives one for the level itself.
-/

namespace BeginCode.Expr

open BeginCode.Token (Kind)
open BeginCode.Reading

/-! ### Readers of expressions only move forward -/

instance forward_rightOperand (operand : Reading Expr) [Forward operand] (operator : Token) :
    Forward (rightOperand operand operator) := by
  unfold rightOperand
  infer_instance

instance forward_chainFrom (join? : Kind → Option Join) (operand : Reading Expr)
    [Forward operand] (bound : Nat) (left : Expr) :
    Forward (chainFrom join? operand bound left) := by
  induction bound generalizing left with
  | zero =>
      unfold chainFrom
      infer_instance
  | succ bound ih =>
      unfold chainFrom
      refine @Reading.forward_bind _ _ _ _ _ fun operator => ?_
      split
      · infer_instance
      · infer_instance

instance forward_chain (join? : Kind → Option Join) (bound : Nat) (operand : Reading Expr)
    [Forward operand] : Forward (chain join? bound operand) := by
  unfold chain
  infer_instance

instance forward_operators (bound : Nat) (operand : Reading Expr) [Forward operand] :
    Forward (operators bound operand) := by
  unfold operators
  infer_instance

instance forward_prefixOperators (operand : Reading Expr) [Forward operand] (bound : Nat) :
    Forward (prefixOperators operand bound) := by
  induction bound with
  | zero =>
      unfold prefixOperators
      infer_instance
  | succ bound ih =>
      unfold prefixOperators
      refine @Reading.forward_bind _ _ _ _ _ fun operator => ?_
      split
      · infer_instance
      · infer_instance

instance forward_missing : Forward missing := by
  unfold missing
  infer_instance

instance forward_operand_literal (value : Value) (line : Nat) :
    Forward (operand.literal value line) := by
  unfold operand.literal
  infer_instance

instance forward_operand (inner : Reading Expr) [Forward inner] : Forward (operand inner) := by
  unfold operand
  refine @Reading.forward_bind _ _ _ _ _ fun token => ?_
  split <;> infer_instance

instance forward_assigned (target value : Expr) (operator : Token) :
    Forward (assigned target value operator) := by
  unfold assigned
  split <;> infer_instance

instance forward_readWithin (bound : Nat) : Forward (readWithin bound) := by
  induction bound with
  | zero =>
      unfold readWithin
      infer_instance
  | succ bound ih =>
      unfold readWithin
      infer_instance

/-! ### One level of operators -/

/-- A reader yields exactly the longest expressions of a level. -/
structure Recognizes (level : Level) (bound : Nat) (reading : Reading Expr) : Prop where
  sound {cursor later : Cursor} {expr : Expr} (hbound : cursor.rest.length ≤ bound)
      (hreads : reading.Reads cursor expr later) :
      Derives level cursor.rest expr later.rest ∧ level.continues later.head.kind = false ∧
        later = cursor.goTo later.rest
  complete (cursor : Cursor) {expr : Expr} {rest : List Token}
      (hbound : cursor.rest.length ≤ bound) (hderives : Derives level cursor.rest expr rest)
      (hnext : level.continues (rest.headD .pastEnd).kind = false) :
      reading.Reads cursor expr (cursor.goTo rest)

/-- The operators of a level, as far as the tighter levels leave them over. -/
structure IsTable (level : Level) (join? : Kind → Option Join) : Prop where
  loose : 0 < level.rank
  tight : level.rank < Level.prefixed.rank
  eq {kind : Kind} (htighter : level.tighter.continues kind = false) :
      join? kind = if kind.operatorLevel? = some level then kind.join? else none

theorem isTable_or : IsTable .disjunction orJoin? :=
  ⟨by decide, by decide, fun {kind} _ => by cases kind <;> rfl⟩

theorem isTable_and : IsTable .conjunction andJoin? :=
  ⟨by decide, by decide, fun {kind} _ => by cases kind <;> rfl⟩

theorem isTable_equality : IsTable .equality equalityJoin? :=
  ⟨by decide, by decide, fun {kind} _ => by cases kind <;> rfl⟩

theorem isTable_order : IsTable .order orderJoin? :=
  ⟨by decide, by decide, fun {kind} _ => by cases kind <;> rfl⟩

theorem isTable_product : IsTable .product productJoin? :=
  ⟨by decide, by decide, fun {kind} _ => by cases kind <;> rfl⟩

/-- The table of sums lists the line-break symbol too, but products take it first. -/
theorem isTable_sum : IsTable .sum sumJoin? := by
  refine ⟨by decide, by decide, fun {kind} htighter => ?_⟩
  have hne : kind ≠ .lineBreak := by
    rintro rfl
    cases htighter
  cases kind <;> first | rfl | exact absurd rfl hne

theorem join?_isSome {level : Level} {kind : Kind} (hlevel : kind.operatorLevel? = some level)
    (hloose : 0 < level.rank) : ∃ join, kind.join? = some join := by
  cases kind <;> cases hlevel <;> first | exact ⟨_, rfl⟩ | cases hloose

namespace IsTable

variable {level : Level} {join? : Kind → Option Join}

theorem not_continues (table : IsTable level join?) {kind : Kind}
    (htighter : level.tighter.continues kind = false) (hnone : join? kind = none) :
    level.continues kind = false := by
  by_contra hcontinues
  have hlevel := Level.operatorLevel_eq (by simpa using hcontinues) htighter
  obtain ⟨join, hjoin⟩ := join?_isSome hlevel table.loose
  rw [table.eq htighter, if_pos hlevel, hjoin] at hnone
  cases hnone

theorem of_some (table : IsTable level join?) {kind : Kind} {join : Join}
    (htighter : level.tighter.continues kind = false) (hsome : join? kind = some join) :
    kind.operatorLevel? = some level ∧ kind.join? = some join := by
  rw [table.eq htighter] at hsome
  split at hsome
  · exact ⟨‹_›, hsome⟩
  · cases hsome

theorem some_of (table : IsTable level join?) {kind : Kind} {join : Join}
    (hlevel : kind.operatorLevel? = some level) (hjoin : kind.join? = some join) :
    join? kind = some join := by
  rw [table.eq (Level.not_tighter_continues hlevel), if_pos hlevel, hjoin]

theorem eq_none (table : IsTable level join?) {kind : Kind}
    (hnext : level.continues kind = false) : join? kind = none := by
  rw [table.eq (Level.not_continues_tighter hnext), if_neg]
  intro hlevel
  simp [Level.continues, hlevel] at hnext

end IsTable

theorem reads_rightOperand {operand : Reading Expr} {operator : Token} {cursor later : Cursor}
    {right : Expr} :
    (rightOperand operand operator).Reads cursor right later ↔
      (operator.kind = .lineBreak ∧ operator.hasOperand cursor.rest = false ∧
        right = .literal (.text "") operator.line ∧ later = cursor) ∨
      ((operator.kind = .lineBreak → operator.hasOperand cursor.rest = true) ∧
        operand.Reads cursor right later) := by
  have hsees : cursor.seesOperand operator = operator.hasOperand cursor.rest := rfl
  simp only [rightOperand, reads_get_bind, hsees]
  by_cases hkind : operator.kind = .lineBreak
  · cases hfollows : operator.hasOperand cursor.rest <;> simp [hkind]
  · simp [hkind]

section Chain

variable {level : Level} {join? : Kind → Option Join} {bound : Nat} {operand : Reading Expr}

/-- Joining what has been read with the next operand, if there is one, stays within the level. -/
theorem derives_join (hoperand : Recognizes level.tighter bound operand) {left right : Expr}
    {join : Join}
    {cursor later : Cursor} {operator : Token} {tokens : List Token}
    (hbound : cursor.rest.length ≤ bound)
    (hleft : Derives level tokens left (operator :: cursor.rest))
    (hlevel : operator.kind.operatorLevel? = some level)
    (hjoin : operator.kind.join? = some join)
    (hright : (rightOperand operand operator).Reads cursor right later) :
    Derives level tokens (join operator.line left right) later.rest ∧
      level.tighter.continues later.head.kind = false ∧ later = cursor.goTo later.rest := by
  rcases reads_rightOperand.mp hright with ⟨hkind, hnothing, rfl, rfl⟩ | ⟨hfollows, hright⟩
  · rw [hkind] at hlevel hjoin
    cases hlevel
    cases hjoin
    exact ⟨.joinNothing hleft hkind hnothing, Level.prefixed_continues _, rfl⟩
  · obtain ⟨hderives, hnext, hlater⟩ := hoperand.sound hbound hright
    exact ⟨.join hleft hlevel hjoin hfollows hderives, hnext, hlater⟩

variable [Forward operand]

theorem chainFrom_sound (table : IsTable level join?)
    (hoperand : Recognizes level.tighter bound operand) {rounds : Nat} {left expr : Expr}
    {cursor later : Cursor} {tokens : List Token} (hrounds : cursor.rest.length ≤ rounds)
    (hbound : cursor.rest.length ≤ bound) (hleft : Derives level tokens left cursor.rest)
    (htighter : level.tighter.continues cursor.head.kind = false)
    (hreads : (chainFrom join? operand rounds left).Reads cursor expr later) :
    Derives level tokens expr later.rest ∧ level.continues later.head.kind = false ∧
      later = cursor.goTo later.rest := by
  induction rounds generalizing left cursor with
  | zero =>
      simp only [chainFrom, reads_pure] at hreads
      obtain ⟨rfl, rfl⟩ := hreads
      have hempty : later.rest = [] := List.length_eq_zero_iff.mp (Nat.le_zero.mp hrounds)
      refine ⟨hleft, ?_, rfl⟩
      rw [Cursor.head_eq, hempty]
      rfl
  | succ rounds ih =>
      simp only [chainFrom, reads_head_bind] at hreads
      split at hreads
      · rename_i hnone
        obtain ⟨rfl, rfl⟩ := reads_pure.mp hreads
        exact ⟨hleft, table.not_continues htighter hnone, rfl⟩
      · rename_i join hsome
        obtain ⟨hlevel, hjoin⟩ := table.of_some htighter hsome
        have hnotEnd : cursor.head.kind ≠ .endOfInput := by
          intro hend
          rw [hend] at hlevel
          cases hlevel
        obtain ⟨rest, hrest, hadvance⟩ := Cursor.rest_eq_cons hnotEnd
        have hlength : cursor.rest.length = rest.length + 1 := by rw [hrest, List.length_cons]
        simp only [reads_bind, reads_advance, hadvance] at hreads
        obtain ⟨-, moved, rfl, right, between, hright, hreads⟩ := hreads
        rw [hrest] at hleft
        obtain ⟨hjoined, hnext, hbetween⟩ := derives_join hoperand
          (by simp only [Cursor.rest_goTo]; omega) hleft hlevel hjoin hright
        have hshorter : between.rest.length ≤ rest.length :=
          Reading.Reads.leadsTo hright |>.length_le
        obtain ⟨hexpr, hlast, hlater⟩ := ih (by omega) (by omega) hjoined hnext hreads
        exact ⟨hexpr, hlast, by rw [hlater, hbetween]; rfl⟩

theorem chain_sound (table : IsTable level join?)
    (hoperand : Recognizes level.tighter bound operand) {cursor later : Cursor} {expr : Expr}
    (hbound : cursor.rest.length ≤ bound)
    (hreads : (chain join? bound operand).Reads cursor expr later) :
    Derives level cursor.rest expr later.rest ∧ level.continues later.head.kind = false ∧
      later = cursor.goTo later.rest := by
  obtain ⟨first, between, hfirst, hreads⟩ := reads_bind.mp hreads
  obtain ⟨hderives, hnext, hbetween⟩ := hoperand.sound hbound hfirst
  have hshorter := hderives.length_lt
  have hlevel : level ≠ .operand := by
    rintro rfl
    exact absurd table.tight (by decide)
  obtain ⟨hexpr, hlast, hlater⟩ := chainFrom_sound table hoperand (by omega) (by omega)
    (.loosen hlevel hderives) hnext hreads
  exact ⟨hexpr, hlast, by rw [hlater, hbetween]; rfl⟩

theorem chainFrom_join (table : IsTable level join?) {cursor between later : Cursor}
    {operator : Token} {middle : List Token} {left right expr : Expr} {join : Join} {rounds : Nat}
    (hlevel : operator.kind.operatorLevel? = some level) (hjoin : operator.kind.join? = some join)
    (hright : (rightOperand operand operator).Reads (cursor.goTo middle) right between)
    (hfrom : (chainFrom join? operand rounds (join operator.line left right)).Reads
      between expr later) :
    (chainFrom join? operand (rounds + 1) left).Reads (cursor.goTo (operator :: middle))
      expr later := by
  have hnotEnd : operator.kind ≠ .endOfInput := by
    intro hend
    rw [hend] at hlevel
    cases hlevel
  have hhead : (cursor.goTo (operator :: middle)).head = operator := rfl
  have hadvance : (cursor.goTo (operator :: middle)).advance = cursor.goTo middle :=
    Cursor.advance_cons rfl hnotEnd
  simp only [chainFrom, reads_head_bind, hhead, table.some_of hlevel hjoin, reads_bind,
    reads_advance, hadvance]
  exact ⟨(), _, rfl, right, between, hright, hfrom⟩

/-- What a derivation of the level has read so far is what `chain` goes on from. -/
theorem chain_reads_of_derives (table : IsTable level join?)
    (hoperand : Recognizes level.tighter bound operand) (cursor : Cursor) {later : Cursor}
    {tokens rest : List Token} {left expr : Expr} (hbound : tokens.length ≤ bound)
    (hleft : Derives level tokens left rest)
    (htighter : level.tighter.continues (rest.headD .pastEnd).kind = false)
    (hfrom : ∀ rounds, rest.length ≤ rounds →
      (chainFrom join? operand rounds left).Reads (cursor.goTo rest) expr later) :
    (chain join? bound operand).Reads (cursor.goTo tokens) expr later := by
  induction hleft with
  | assign _ _ _ => cases table.loose
  | prefixed _ _ _ => cases Nat.lt_irrefl _ table.tight
  | lineBreak _ _ => cases Nat.lt_irrefl _ table.tight
  | literal _ => cases Nat.lt_asymm table.tight (by decide)
  | named _ => cases Nat.lt_asymm table.tight (by decide)
  | grouping _ _ _ => cases Nat.lt_asymm table.tight (by decide)
  | loosen _ hexpr =>
      have hfirst := hoperand.complete (cursor.goTo _) hbound hexpr htighter
      have hshorter := hexpr.length_lt
      exact reads_bind.mpr ⟨_, _, hfirst, hfrom bound (by omega)⟩
  | join hleft hlevel hjoin hfollows hright ih =>
      refine ih table hoperand hbound (Level.not_tighter_continues hlevel) fun rounds hrounds => ?_
      have hshorter := hleft.length_lt
      have hshorterRight := hright.length_lt
      simp only [List.length_cons] at hshorter hrounds
      obtain ⟨rounds, rfl⟩ : ∃ fewer, rounds = fewer + 1 := ⟨rounds - 1, by omega⟩
      have hoperandReads := hoperand.complete (cursor.goTo _) (by simp; omega) hright htighter
      exact chainFrom_join table hlevel hjoin
        (reads_rightOperand.mpr (.inr ⟨hfollows, hoperandReads⟩)) (hfrom rounds (by omega))
  | joinNothing hleft hkind hnothing ih =>
      refine ih table hoperand hbound (by simp [hkind, Level.tighter]) fun rounds hrounds => ?_
      simp only [List.length_cons] at hrounds
      obtain ⟨rounds, rfl⟩ : ∃ fewer, rounds = fewer + 1 := ⟨rounds - 1, by omega⟩
      exact chainFrom_join table (by rw [hkind]; rfl) (by rw [hkind]; rfl)
        (reads_rightOperand.mpr (.inl ⟨hkind, hnothing, rfl, rfl⟩)) (hfrom rounds (by omega))

theorem recognizes_chain (table : IsTable level join?)
    (hoperand : Recognizes level.tighter bound operand) :
    Recognizes level bound (chain join? bound operand) := by
  refine ⟨chain_sound table hoperand, fun cursor expr rest hbound hderives hnext => ?_⟩
  refine chain_reads_of_derives table hoperand cursor hbound hderives
    (Level.not_continues_tighter hnext) fun rounds _ => ?_
  have hnone : join? (cursor.goTo rest).head.kind = none := table.eq_none hnext
  cases rounds with
  | zero => exact reads_pure.mpr ⟨rfl, rfl⟩
  | succ rounds =>
      simp only [chainFrom, reads_head_bind, hnone]
      exact reads_pure.mpr ⟨rfl, rfl⟩

end Chain

theorem recognizes_operators {bound : Nat} {operand : Reading Expr} [Forward operand]
    (hoperand : Recognizes .prefixed bound operand) :
    Recognizes .disjunction bound (operators bound operand) :=
  recognizes_chain isTable_or <| recognizes_chain isTable_and <|
    recognizes_chain isTable_equality <| recognizes_chain isTable_order <|
    recognizes_chain isTable_sum <| recognizes_chain isTable_product hoperand

/-! ### Prefix operators and operands -/

theorem prefixed?_eq_lineBreak {kind : Kind} {op : UnaryOp} (hop : prefixed? kind = some op) :
    op = .lineBreak ↔ kind = .lineBreak := by
  cases kind <;> cases hop <;> decide

section Prefixed

variable {bound : Nat} {operand : Reading Expr} [Forward operand]

omit [Forward operand] in
theorem reads_prefixOperators_of_none {rounds : Nat} {cursor later : Cursor} {expr : Expr}
    (hnone : prefixed? cursor.head.kind = none) :
    (prefixOperators operand rounds).Reads cursor expr later ↔
      operand.Reads cursor expr later := by
  cases rounds with
  | zero => rfl
  | succ rounds => simp only [prefixOperators, reads_head_bind, hnone]

theorem reads_prefixOperators_of_some {rounds : Nat} {cursor later : Cursor} {expr : Expr}
    {operator : Token} {rest : List Token} {op : UnaryOp} (hrest : cursor.rest = operator :: rest)
    (hop : prefixed? operator.kind = some op) :
    (prefixOperators operand (rounds + 1)).Reads cursor expr later ↔
      (operator.kind = .lineBreak ∧ operator.hasOperand rest = false ∧
        expr = .literal (.text "\n") operator.line ∧ later = cursor.goTo rest) ∨
      ((operator.kind = .lineBreak → operator.hasOperand rest = true) ∧
        ∃ inner, (prefixOperators operand rounds).Reads (cursor.goTo rest) inner later ∧
          expr = .unary op inner operator.line) := by
  have hnotEnd : operator.kind ≠ .endOfInput := by
    intro hend
    rw [hend] at hop
    cases hop
  have hhead : cursor.head = operator := Cursor.head_cons hrest
  have hsees : (cursor.goTo rest).seesOperand operator = operator.hasOperand rest := rfl
  have hbreak := prefixed?_eq_lineBreak hop
  simp only [prefixOperators, reads_head_bind, hhead, hop, reads_advance_bind,
    Cursor.advance_cons hrest hnotEnd, reads_get_bind, hsees, hbreak]
  by_cases hkind : operator.kind = .lineBreak
  · cases hfollows : operator.hasOperand rest with
    | false => simp [hkind]
    | true =>
        simp only [hkind, decide_true, Bool.not_true, Bool.and_false, Bool.false_eq_true,
          ↓reduceIte, reads_bind, reads_pure]
        simp
  · simp only [hkind, decide_false, Bool.false_and, Bool.false_eq_true, ↓reduceIte, reads_bind,
      reads_pure]
    simp

theorem prefixOperators_sound (hoperand : Recognizes .operand bound operand) {rounds : Nat}
    {cursor later : Cursor} {expr : Expr} (hbound : cursor.rest.length ≤ bound)
    (hreads : (prefixOperators operand rounds).Reads cursor expr later) :
    Derives .prefixed cursor.rest expr later.rest ∧ later = cursor.goTo later.rest := by
  induction rounds generalizing cursor expr with
  | zero =>
      obtain ⟨hderives, -, hlater⟩ := hoperand.sound hbound hreads
      exact ⟨.loosen (by decide) hderives, hlater⟩
  | succ rounds ih =>
      cases hop : prefixed? cursor.head.kind with
      | none =>
          rw [reads_prefixOperators_of_none hop] at hreads
          obtain ⟨hderives, -, hlater⟩ := hoperand.sound hbound hreads
          exact ⟨.loosen (by decide) hderives, hlater⟩
      | some op =>
          have hnotEnd : cursor.head.kind ≠ .endOfInput := by
            intro hend
            rw [hend] at hop
            cases hop
          obtain ⟨rest, hrest, -⟩ := Cursor.rest_eq_cons hnotEnd
          rw [hrest, List.length_cons] at hbound
          rw [reads_prefixOperators_of_some hrest hop] at hreads
          rw [hrest]
          rcases hreads with ⟨hkind, hnothing, rfl, rfl⟩ | ⟨hfollows, inner, hinner, rfl⟩
          · exact ⟨.lineBreak hkind hnothing, rfl⟩
          · obtain ⟨hderives, hlater⟩ := ih (by rw [Cursor.rest_goTo]; omega) hinner
            exact ⟨.prefixed hop hfollows hderives, hlater⟩

theorem prefixOperators_complete (hoperand : Recognizes .operand bound operand) (cursor : Cursor)
    {rounds : Nat} {tokens rest : List Token} {expr : Expr} (hrounds : tokens.length ≤ rounds)
    (hbound : tokens.length ≤ bound) (hderives : Derives .prefixed tokens expr rest) :
    (prefixOperators operand rounds).Reads (cursor.goTo tokens) expr (cursor.goTo rest) := by
  generalize hlevel : Level.prefixed = level at hderives
  induction hderives generalizing rounds with
  | assign _ _ _ => cases hlevel
  | join _ hoperator _ _ _ =>
      subst hlevel
      cases Nat.lt_irrefl _ (Level.rank_lt_of_operatorLevel hoperator)
  | joinNothing _ _ _ => cases hlevel
  | literal _ => cases hlevel
  | named _ => cases hlevel
  | grouping _ _ _ => cases hlevel
  | loosen _ hexpr =>
      subst hlevel
      have hnone : prefixed? (cursor.goTo _).head.kind = none := hexpr.operand_begins
      rw [reads_prefixOperators_of_none hnone]
      exact hoperand.complete (cursor.goTo _) hbound hexpr (Level.operand_continues _)
  | prefixed hop hfollows hinner ih =>
      simp only [List.length_cons] at hrounds hbound
      obtain ⟨rounds, rfl⟩ : ∃ fewer, rounds = fewer + 1 := ⟨rounds - 1, by omega⟩
      rw [reads_prefixOperators_of_some rfl hop]
      exact .inr ⟨hfollows, _, ih (by omega) (by omega) rfl, rfl⟩
  | lineBreak hkind hnothing =>
      obtain ⟨rounds, rfl⟩ : ∃ fewer, rounds = fewer + 1 :=
        ⟨rounds - 1, by simp only [List.length_cons] at hrounds; omega⟩
      rw [reads_prefixOperators_of_some rfl (by rw [hkind]; rfl)]
      exact .inl ⟨hkind, hnothing, rfl, rfl⟩

theorem recognizes_prefixOperators (hoperand : Recognizes .operand bound operand) :
    Recognizes .prefixed bound (prefixOperators operand bound) := by
  refine ⟨fun hbound hreads => ?_, fun cursor expr rest hbound hderives _ => ?_⟩
  · obtain ⟨hderives, hlater⟩ := prefixOperators_sound hoperand hbound hreads
    exact ⟨hderives, Level.prefixed_continues _, hlater⟩
  · exact prefixOperators_complete hoperand cursor hbound hbound hderives

end Prefixed

section Operand

variable {inner : Reading Expr}

theorem reads_operand_of_literal {cursor later : Cursor} {expr : Expr} {value : Value}
    (hvalue : cursor.head.literalValue? = some value) :
    (operand inner).Reads cursor expr later ↔
      expr = .literal value cursor.head.line ∧ later = cursor.advance := by
  have hliteral (found : Value) : (operand.literal found cursor.head.line).Reads cursor expr later ↔
      expr = .literal found cursor.head.line ∧ later = cursor.advance := by
    simp only [operand.literal, reads_advance_bind, reads_pure]
  unfold Token.literalValue? at hvalue
  rw [operand, reads_head_bind]
  split at hvalue <;> cases hvalue <;> rename_i hkind <;> rw [hkind] <;> exact hliteral _

theorem reads_operand_of_name {cursor later : Cursor} {expr : Expr}
    (hname : cursor.head.kind = .identifier) :
    (operand inner).Reads cursor expr later ↔
      expr = .variable cursor.head ∧ later = cursor.advance := by
  rw [operand, reads_head_bind, hname]
  simp only [reads_advance_bind, reads_pure]

theorem reads_operand_of_paren [Forward inner] {cursor later : Cursor} {expr : Expr}
    (hopening : cursor.head.kind = .leftParen) :
    (operand inner).Reads cursor expr later ↔
      ∃ found between closing rest, inner.Reads cursor.advance found between ∧
        closing.kind = .rightParen ∧ between.rest = closing :: rest ∧
        expr = .grouping found cursor.head.line ∧ later = between.goTo rest := by
  rw [operand, reads_head_bind, hopening, reads_advance_bind]
  simp only [reads_bind, reads_expect (show Kind.rightParen ≠ .endOfInput by decide), reads_pure]
  constructor
  · rintro ⟨found, between, hinner, closing, moved, ⟨hclosing, rest, hrest, rfl⟩, rfl, rfl⟩
    exact ⟨found, between, closing, rest, hinner, hclosing, hrest, rfl, rfl⟩
  · rintro ⟨found, between, closing, rest, hinner, hclosing, hrest, rfl, rfl⟩
    exact ⟨found, between, hinner, closing, _, ⟨hclosing, rest, hrest, rfl⟩, rfl, rfl⟩

theorem not_reads_operand {cursor later : Cursor} {expr : Expr}
    (hliteral : cursor.head.literalValue? = none) (hname : cursor.head.kind ≠ .identifier)
    (hopening : cursor.head.kind ≠ .leftParen) : ¬(operand inner).Reads cursor expr later := by
  rw [operand, reads_head_bind]
  split <;> simp_all [Token.literalValue?, missing]

theorem operand_sound {bound : Nat} [Forward inner] (hinner : Recognizes .assignment bound inner)
    {cursor later : Cursor} {expr : Expr} (hbound : cursor.rest.length ≤ bound + 1)
    (hreads : (operand inner).Reads cursor expr later) :
    Derives .operand cursor.rest expr later.rest ∧ later = cursor.goTo later.rest := by
  have hnotEnd : cursor.head.kind ≠ .endOfInput := by
    intro hend
    refine not_reads_operand ?_ ?_ ?_ hreads <;> simp [hend, Token.literalValue?]
  obtain ⟨rest, hrest, hadvance⟩ := Cursor.rest_eq_cons hnotEnd
  rw [hrest, List.length_cons] at hbound
  cases hvalue : cursor.head.literalValue? with
  | some value =>
      rw [reads_operand_of_literal hvalue, hadvance] at hreads
      obtain ⟨rfl, rfl⟩ := hreads
      rw [hrest]
      exact ⟨.literal hvalue, rfl⟩
  | none =>
      by_cases hname : cursor.head.kind = .identifier
      · rw [reads_operand_of_name hname, hadvance] at hreads
        obtain ⟨rfl, rfl⟩ := hreads
        rw [hrest]
        exact ⟨.named hname, rfl⟩
      · by_cases hopening : cursor.head.kind = .leftParen
        · rw [reads_operand_of_paren hopening, hadvance] at hreads
          obtain ⟨found, between, closing, last, hfound, hclosing, hbetween, rfl, rfl⟩ := hreads
          obtain ⟨hderives, -, hmoved⟩ :=
            hinner.sound (by rw [Cursor.rest_goTo]; omega) hfound
          rw [hrest]
          rw [hbetween] at hderives
          exact ⟨.grouping hopening hderives hclosing, by rw [hmoved]; rfl⟩
        · exact absurd hreads (not_reads_operand hvalue hname hopening)

theorem operand_complete {bound : Nat} [Forward inner]
    (hinner : Recognizes .assignment bound inner) {cursor : Cursor} {expr : Expr}
    {tokens rest : List Token} (htokens : cursor.rest = tokens)
    (hbound : tokens.length ≤ bound + 1) (hderives : Derives .operand tokens expr rest) :
    (operand inner).Reads cursor expr (cursor.goTo rest) := by
  have hhead : cursor.head = tokens.headD .pastEnd := by rw [Cursor.head_eq, htokens]
  cases hderives with
  | loosen hlevel _ => cases hlevel rfl
  | join _ hlevel _ _ _ =>
      cases Nat.lt_asymm (Level.rank_lt_of_operatorLevel hlevel) (by decide)
  | literal hvalue =>
      rename_i token value
      have hnotEnd : token.kind ≠ .endOfInput := by
        intro hend
        simp [Token.literalValue?, hend] at hvalue
      have hhead : cursor.head = token := hhead
      rw [reads_operand_of_literal (hhead ▸ hvalue), Cursor.advance_cons htokens hnotEnd, hhead]
      exact ⟨rfl, rfl⟩
  | named hname =>
      rename_i name
      have hhead : cursor.head = name := hhead
      rw [reads_operand_of_name (hhead ▸ hname),
        Cursor.advance_cons htokens (by rw [hname]; decide), hhead]
      exact ⟨rfl, rfl⟩
  | grouping hopening hderives hclosing =>
      rename_i opening closing tokens found
      have hhead : cursor.head = opening := hhead
      rw [reads_operand_of_paren (hhead ▸ hopening),
        Cursor.advance_cons htokens (by rw [hopening]; decide), hhead]
      have hfound := hinner.complete (cursor.goTo tokens) (Nat.le_of_succ_le_succ hbound) hderives
        (by rw [List.headD_cons, hclosing]; rfl)
      exact ⟨found, _, closing, rest, hfound, hclosing, rfl, rfl, rfl⟩

theorem recognizes_operand {bound : Nat} [Forward inner]
    (hinner : Recognizes .assignment bound inner) :
    Recognizes .operand (bound + 1) (operand inner) := by
  refine ⟨fun hbound hreads => ?_, fun cursor expr rest hbound hderives _ => ?_⟩
  · obtain ⟨hderives, hlater⟩ := operand_sound hinner hbound hreads
    exact ⟨hderives, Level.operand_continues _, hlater⟩
  · exact operand_complete hinner rfl hbound hderives

end Operand

/-! ### Whole expressions -/

theorem join?_ne_variable {kind : Kind} {join : Join} (hjoin : kind.join? = some join) (line : Nat)
    (left right : Expr) (name : Token) : join line left right ≠ .variable name := by
  cases kind <;> cases hjoin <;> exact fun heq => by cases heq

theorem Derives.of_variable {level : Level} {tokens rest : List Token} {name : Token}
    (hderives : Derives level tokens (.variable name) rest) :
    tokens = name :: rest ∧ name.kind = .identifier := by
  generalize hexpr : Expr.variable name = expr at hderives
  induction hderives with
  | loosen _ _ ih => exact ih hexpr
  | join _ _ hjoin _ _ => exact absurd hexpr.symm (join?_ne_variable hjoin _ _ _ name)
  | named hname =>
      cases hexpr
      exact ⟨rfl, hname⟩
  | assign _ _ _ => cases hexpr
  | joinNothing _ _ _ => cases hexpr
  | prefixed _ _ _ => cases hexpr
  | lineBreak _ _ => cases hexpr
  | literal _ => cases hexpr
  | grouping _ _ _ => cases hexpr

theorem Derives.of_operand {tokens rest : List Token} {expr : Expr} (level : Level)
    (hderives : Derives .operand tokens expr rest) : Derives level tokens expr rest := by
  have hprefixed : Derives .prefixed tokens expr rest := .loosen (by decide) hderives
  have hproduct : Derives .product tokens expr rest := .loosen (by decide) hprefixed
  have hsum : Derives .sum tokens expr rest := .loosen (by decide) hproduct
  have horder : Derives .order tokens expr rest := .loosen (by decide) hsum
  have hequality : Derives .equality tokens expr rest := .loosen (by decide) horder
  have hconjunction : Derives .conjunction tokens expr rest := .loosen (by decide) hequality
  have hdisjunction : Derives .disjunction tokens expr rest := .loosen (by decide) hconjunction
  cases level
  case assignment => exact .loosen (by decide) hdisjunction
  all_goals assumption

theorem Derives.assignment_cases {tokens rest : List Token} {expr : Expr}
    (hderives : Derives .assignment tokens expr rest) :
    Derives .disjunction tokens expr rest ∨
      ∃ name equals others value, tokens = name :: equals :: others ∧ name.kind = .identifier ∧
        equals.kind = .equals ∧ Derives .assignment others value rest ∧
        expr = .assign name value := by
  cases hderives with
  | assign hname hequals hvalue => exact .inr ⟨_, _, _, _, rfl, hname, hequals, hvalue, rfl⟩
  | loosen _ hexpr => exact .inl hexpr
  | join _ hlevel hjoin _ _ =>
      generalize Token.kind _ = kind at hlevel hjoin
      cases kind <;> cases hlevel
      cases hjoin

theorem reads_assigned {target value expr : Expr} {operator : Token} {cursor later : Cursor} :
    (assigned target value operator).Reads cursor expr later ↔
      ∃ name, target = .variable name ∧ expr = .assign name value ∧ later = cursor := by
  cases target <;> simp [assigned, reads_bind, -bind_pure_comp]

theorem readWithin_sound {bound : Nat} (ih : Recognizes .assignment bound (readWithin bound))
    {cursor later : Cursor} {expr : Expr} (hbound : cursor.rest.length ≤ bound + 1)
    (hreads : (readWithin (bound + 1)).Reads cursor expr later) :
    Derives .assignment cursor.rest expr later.rest ∧
      Level.assignment.continues later.head.kind = false ∧ later = cursor.goTo later.rest := by
  have hoperators := recognizes_operators (recognizes_prefixOperators (recognizes_operand ih))
  obtain ⟨target, between, htarget, hreads⟩ := reads_bind.mp hreads
  obtain ⟨hderives, hnext, hbetween⟩ := hoperators.sound hbound htarget
  rw [reads_head_bind] at hreads
  split at hreads
  · rename_i hequals
    have hnotEnd : between.head.kind ≠ .endOfInput := by
      rw [hequals]
      decide
    obtain ⟨rest, hrest, hadvance⟩ := Cursor.rest_eq_cons hnotEnd
    rw [reads_advance_bind, hadvance] at hreads
    obtain ⟨value, last, hvalue, hassigned⟩ := reads_bind.mp hreads
    obtain ⟨name, rfl, rfl, rfl⟩ := reads_assigned.mp hassigned
    obtain ⟨htokens, hname⟩ := hderives.of_variable
    have hlength : cursor.rest.length = rest.length + 2 := by
      rw [htokens, hrest, List.length_cons, List.length_cons]
    obtain ⟨hvalueDerives, hlast, hlater⟩ := ih.sound (by rw [Cursor.rest_goTo]; omega) hvalue
    rw [htokens, hrest]
    exact ⟨.assign hname hequals hvalueDerives, hlast, by rw [hlater, hbetween]; rfl⟩
  · rename_i hequals
    obtain ⟨rfl, rfl⟩ := reads_pure.mp hreads
    exact ⟨.loosen (by decide) hderives, Level.assignment_not_continues hnext hequals, hbetween⟩

theorem readWithin_complete {bound : Nat} (ih : Recognizes .assignment bound (readWithin bound))
    {cursor : Cursor} {expr : Expr} {tokens rest : List Token} (htokens : cursor.rest = tokens)
    (hbound : tokens.length ≤ bound + 1) (hderives : Derives .assignment tokens expr rest)
    (hnext : Level.assignment.continues (rest.headD .pastEnd).kind = false) :
    (readWithin (bound + 1)).Reads cursor expr (cursor.goTo rest) := by
  have hoperators := recognizes_operators (recognizes_prefixOperators (recognizes_operand ih))
  subst htokens
  rcases hderives.assignment_cases with
    hdisjunction | ⟨name, equals, others, value, htokens, hname, hequals, hvalue, rfl⟩
  · have htarget :=
      hoperators.complete cursor hbound hdisjunction (Level.not_continues_tighter hnext)
    have hnotEquals : (cursor.goTo rest).head.kind ≠ .equals := by
      intro hequals
      rw [Cursor.head_eq, Cursor.rest_goTo] at hequals
      rw [hequals] at hnext
      cases hnext
    refine reads_bind.mpr ⟨expr, _, htarget, ?_⟩
    rw [reads_head_bind, if_neg hnotEquals]
    exact reads_pure.mpr ⟨rfl, rfl⟩
  · have hvariable : Derives .disjunction cursor.rest (.variable name) (equals :: others) := by
      rw [htokens]
      exact .of_operand .disjunction (.named hname)
    have htarget := hoperators.complete cursor hbound hvariable
      (by rw [List.headD_cons, hequals]; rfl)
    have hlength : others.length ≤ bound := by
      rw [htokens, List.length_cons, List.length_cons] at hbound
      omega
    have hhead : (cursor.goTo (equals :: others)).head = equals := rfl
    refine reads_bind.mpr ⟨_, _, htarget, ?_⟩
    rw [reads_head_bind, hhead, if_pos hequals, reads_advance_bind,
      Cursor.advance_cons rfl (by rw [hequals]; decide)]
    exact reads_bind.mpr ⟨value, _, ih.complete (cursor.goTo others) hlength hvalue hnext,
      reads_assigned.mpr ⟨name, rfl, rfl, rfl⟩⟩

theorem recognizes_readWithin (bound : Nat) : Recognizes .assignment bound (readWithin bound) := by
  induction bound with
  | zero =>
      refine ⟨fun _ hreads => absurd hreads Reading.not_reads_fail,
        fun cursor expr rest hbound hderives _ => ?_⟩
      exact absurd hderives.length_lt (by omega)
  | succ bound ih =>
      exact ⟨readWithin_sound ih, fun cursor expr rest => readWithin_complete ih rfl⟩

/-- Reading an expression succeeds silently exactly where one is spelled out, and takes it. -/
theorem follows_readWithin {bound : Nat} {cursor : Cursor} (hbound : cursor.rest.length ≤ bound) :
    (readWithin bound).Follows cursor Spelled := by
  have hrecognizes := recognizes_readWithin bound
  refine ⟨fun {expr later} => ⟨?_, ?_⟩⟩
  · intro hreads
    obtain ⟨hderives, hnext, hlater⟩ := hrecognizes.sound hbound hreads
    exact ⟨later.rest, ⟨hderives, hnext⟩, hlater⟩
  · rintro ⟨rest, ⟨hderives, hnext⟩, rfl⟩
    exact hrecognizes.complete cursor hbound hderives hnext

/-- What is spelled out at the cursor is read, and nothing is reported. -/
theorem Spelled.run_read {tokens rest : List Token} {expr : Expr}
    (hspelled : Spelled tokens expr rest) (cursor : Cursor) :
    read.run (cursor.goTo tokens) = .ok expr (cursor.goTo rest) := by
  have hfollows : (readWithin tokens.length).Follows (cursor.goTo tokens) Spelled :=
    follows_readWithin le_rfl
  exact (hfollows.reads_iff.mpr ⟨rest, hspelled, rfl⟩).1

end BeginCode.Expr
