import BeginCode.Proofs.Progress

/-!
# Bounds are never reached

Every reader takes a bound on its recursion. A nested reading begins only after a token has been
consumed, so with a bound of at least the number of tokens left, the bound makes no difference: all
such bounds lead to the same result, the same errors and the same place.
-/

namespace BeginCode

open BeginCode.Token (Kind)
open BeginCode.Reading

/-! ### Readings that do the same -/

namespace Reading

variable {α β : Type} {length less : Nat} {first other : Reading α} {next after : α → Reading β}
  {cursor : Cursor}

/-- The readings do the same where at most so many tokens are left. -/
def SameUpTo (length : Nat) (first other : Reading α) : Prop :=
  ∀ cursor : Cursor, cursor.rest.length ≤ length → first.run cursor = other.run cursor

theorem sameUpTo_refl (reading : Reading α) : SameUpTo length reading reading := fun _ _ => rfl

theorem SameUpTo.mono (hsame : SameUpTo length first other) (hless : less ≤ length) :
    SameUpTo less first other :=
  fun cursor hlength => hsame cursor (hlength.trans hless)

theorem run_bind_congr (hfirst : first.run cursor = other.run cursor)
    (hnext : ∀ result later, first.run cursor = .ok result later →
      (next result).run later = (after result).run later) :
    (first >>= next).run cursor = (other >>= after).run cursor := by
  rw [EStateM.run_bind, EStateM.run_bind, ← hfirst]
  cases hrun : first.run cursor with
  | ok result later => exact hnext result later hrun
  | error error later => rfl

theorem sameUpTo_bind [Forward first] (hfirst : SameUpTo length first other)
    (hnext : ∀ result, SameUpTo length (next result) (after result)) :
    SameUpTo length (first >>= next) (other >>= after) := by
  intro cursor hlength
  refine run_bind_congr (hfirst cursor hlength) fun result later hrun => ?_
  exact hnext result later ((length_le_of_ok hrun).trans hlength)

theorem sameUpTo_get_bind {next after : Cursor → Reading β}
    (hnext : ∀ cursor, SameUpTo length (next cursor) (after cursor)) :
    SameUpTo length (get >>= next) (get >>= after) :=
  fun cursor hlength => hnext cursor cursor hlength

theorem sameUpTo_ite {condition : Prop} [Decidable condition] {second last : Reading α}
    (hfirst : SameUpTo length first other) (hsecond : SameUpTo length second last) :
    SameUpTo length (if condition then first else second)
      (if condition then other else last) := by
  by_cases hcondition : condition
  · rwa [if_pos hcondition, if_pos hcondition]
  · rwa [if_neg hcondition, if_neg hcondition]

/-! After a token there is one less. -/

theorem run_advance_bind_congr {next after : Unit → Reading β}
    (hkind : cursor.head.kind ≠ .endOfInput) (hlength : cursor.rest.length ≤ length)
    (hnext : SameUpTo (length - 1) (next ()) (after ())) :
    (advance >>= next).run cursor = (advance >>= after).run cursor := by
  have hlt := length_advance_lt hkind
  exact hnext cursor.advance (by omega)

theorem sameUpTo_accept_bind {kind : Kind} (hkind : kind ≠ .endOfInput)
    {next after : Bool → Reading β} (htaken : SameUpTo (length - 1) (next true) (after true))
    (hother : SameUpTo length (next false) (after false)) :
    SameUpTo length (accept kind >>= next) (accept kind >>= after) := by
  intro cursor hlength
  refine run_bind_congr rfl fun found later hrun => ?_
  rw [run_accept] at hrun
  split at hrun
  · rename_i hhead
    cases hrun
    have hlt : cursor.advance.rest.length < cursor.rest.length :=
      length_advance_lt (hhead ▸ hkind)
    exact htaken cursor.advance (by omega)
  · cases hrun
    exact hother cursor hlength

theorem head_of_rest_nil (hrest : cursor.rest = []) : cursor.head = .pastEnd := by
  rw [Cursor.head_eq, hrest]
  rfl

theorem run_accept_of_rest_nil {kind : Kind} (hkind : kind ≠ .endOfInput)
    (hrest : cursor.rest = []) : (accept kind).run cursor = .ok false cursor := by
  rw [run_accept, head_of_rest_nil hrest]
  exact if_neg hkind.symm

/-- Without tokens there is one item. -/
theorem run_separated_of_rest_nil {item : Reading α} [Forward item] (hrest : cursor.rest = [])
    (bound : Nat) :
    (separated item bound).run cursor = (item >>= fun first => pure [first]).run cursor := by
  cases bound with
  | zero => rfl
  | succ bound =>
      rw [separated]
      refine run_bind_congr rfl fun first later hrun => ?_
      have hlength := length_le_of_ok hrun
      have hlater : later.rest = [] :=
        List.eq_nil_of_length_eq_zero (by rw [hrest] at hlength; exact Nat.le_zero.mp hlength)
      rw [EStateM.run_bind, run_accept_of_rest_nil (by decide) hlater]
      rfl

theorem sameUpTo_separated {item found : Reading α} [Forward item] [Forward found]
    (hitem : SameUpTo length item found) {bound limit : Nat} (hbound : length ≤ bound)
    (hlimit : length ≤ limit) :
    SameUpTo length (separated item bound) (separated found limit) := by
  induction length generalizing bound limit with
  | zero =>
      intro cursor hlength
      have hrest : cursor.rest = [] := List.eq_nil_of_length_eq_zero (by omega)
      rw [run_separated_of_rest_nil hrest, run_separated_of_rest_nil hrest]
      exact run_bind_congr (hitem cursor hlength) fun _ _ _ => rfl
  | succ length ih =>
      obtain ⟨bound, rfl⟩ := Nat.exists_eq_add_one_of_ne_zero (by omega : bound ≠ 0)
      obtain ⟨limit, rfl⟩ := Nat.exists_eq_add_one_of_ne_zero (by omega : limit ≠ 0)
      refine sameUpTo_bind hitem fun one => sameUpTo_accept_bind (by decide) ?_ (sameUpTo_refl _)
      exact sameUpTo_bind (ih (hitem.mono (by omega)) (by omega) (by omega)) fun _ =>
        sameUpTo_refl _

end Reading

/-! ### Expressions -/

namespace Expr

section Operators

variable {length : Nat} {operand other : Reading Expr}
  (hoperand : SameUpTo length operand other)

include hoperand

theorem sameUpTo_rightOperand (operator : Token) :
    SameUpTo length (rightOperand operand operator) (rightOperand other operator) :=
  sameUpTo_get_bind fun _ => sameUpTo_ite (sameUpTo_refl _) hoperand

variable {bound limit : Nat} (hbound : length ≤ bound) (hlimit : length ≤ limit)

include hbound hlimit

theorem sameUpTo_chainFrom [Forward operand] {join? : Kind → Option Join}
    (hend : join? .endOfInput = none) (left : Expr) :
    SameUpTo length (chainFrom join? operand bound left) (chainFrom join? other limit left) := by
  induction length generalizing bound limit left with
  | zero =>
      intro cursor hlength
      have hhead := head_of_rest_nil (List.eq_nil_of_length_eq_zero (Nat.le_zero.mp hlength))
      have hleft (operand : Reading Expr) (bound : Nat) :
          (chainFrom join? operand bound left).run cursor = .ok left cursor := by
        cases bound with
        | zero => rfl
        | succ bound =>
            rw [chainFrom, EStateM.run_bind, run_head]
            dsimp only
            rw [hhead, Token.pastEnd, hend]
            rfl
      rw [hleft, hleft]
  | succ length ih =>
      obtain ⟨bound, rfl⟩ := Nat.exists_eq_add_one_of_ne_zero (by omega : bound ≠ 0)
      obtain ⟨limit, rfl⟩ := Nat.exists_eq_add_one_of_ne_zero (by omega : limit ≠ 0)
      intro cursor hlength
      rw [chainFrom, chainFrom, EStateM.run_bind, EStateM.run_bind, run_head]
      dsimp only
      cases hjoin : join? cursor.head.kind with
      | none => rfl
      | some join =>
          have hkind : cursor.head.kind ≠ .endOfInput := by
            intro hkind
            rw [hkind, hend] at hjoin
            cases hjoin
          have hless := hoperand.mono (Nat.le_succ length)
          refine run_advance_bind_congr hkind hlength ?_
          exact sameUpTo_bind (sameUpTo_rightOperand hless cursor.head) fun _ =>
            ih hless (by omega) (by omega) _

theorem sameUpTo_chain [Forward operand] {join? : Kind → Option Join}
    (hend : join? .endOfInput = none) :
    SameUpTo length (chain join? bound operand) (chain join? limit other) :=
  sameUpTo_bind hoperand fun left => sameUpTo_chainFrom hoperand hbound hlimit hend left

theorem sameUpTo_operators [Forward operand] :
    SameUpTo length (operators bound operand) (operators limit other) := by
  unfold operators
  iterate 6 refine sameUpTo_chain ?_ hbound hlimit rfl
  exact hoperand

theorem sameUpTo_prefixOperators [Forward operand] :
    SameUpTo length (prefixOperators operand bound) (prefixOperators other limit) := by
  induction length generalizing bound limit with
  | zero =>
      intro cursor hlength
      have hhead := head_of_rest_nil (List.eq_nil_of_length_eq_zero (Nat.le_zero.mp hlength))
      have hnone (operand : Reading Expr) (bound : Nat) :
          (prefixOperators operand bound).run cursor = operand.run cursor := by
        cases bound with
        | zero => rfl
        | succ bound =>
            rw [prefixOperators, EStateM.run_bind, run_head]
            dsimp only
            rw [hhead]
            rfl
      rw [hnone, hnone]
      exact hoperand cursor hlength
  | succ length ih =>
      obtain ⟨bound, rfl⟩ := Nat.exists_eq_add_one_of_ne_zero (by omega : bound ≠ 0)
      obtain ⟨limit, rfl⟩ := Nat.exists_eq_add_one_of_ne_zero (by omega : limit ≠ 0)
      intro cursor hlength
      rw [prefixOperators, prefixOperators, EStateM.run_bind, EStateM.run_bind, run_head]
      dsimp only
      cases hop : prefixed? cursor.head.kind with
      | none => exact hoperand cursor hlength
      | some op =>
          have hkind : cursor.head.kind ≠ .endOfInput := by
            intro hkind
            rw [hkind] at hop
            cases hop
          refine run_advance_bind_congr hkind hlength (sameUpTo_get_bind fun _ => ?_)
          refine sameUpTo_ite (sameUpTo_refl _) ?_
          exact sameUpTo_bind (ih (hoperand.mono (Nat.le_succ length)) (by omega) (by omega))
            fun _ => sameUpTo_refl _

end Operators

theorem sameUpTo_operand {length : Nat} {inner other : Reading Expr} [Forward inner]
    (hinner : SameUpTo length inner other) :
    SameUpTo (length + 1) (operand inner) (operand other) := by
  intro cursor hlength
  rw [operand, operand, EStateM.run_bind, EStateM.run_bind, run_head]
  dsimp only
  split
  case h_10 hhead =>
    refine run_advance_bind_congr (by rw [hhead]; decide) hlength ?_
    exact sameUpTo_bind hinner fun _ => sameUpTo_refl _
  all_goals rfl

theorem run_readWithin_of_rest_nil {cursor : Cursor} (hrest : cursor.rest = []) (bound : Nat) :
    (readWithin bound).run cursor = missing.run cursor := by
  obtain ⟨rest, executable, codeSeen, report⟩ := cursor
  subst hrest
  cases bound with
  | zero => rfl
  | succ bound => rfl

theorem sameUpTo_readWithin {length bound limit : Nat} (hbound : length ≤ bound)
    (hlimit : length ≤ limit) : SameUpTo length (readWithin bound) (readWithin limit) := by
  induction length generalizing bound limit with
  | zero =>
      intro cursor hlength
      have hrest := List.eq_nil_of_length_eq_zero (Nat.le_zero.mp hlength)
      rw [run_readWithin_of_rest_nil hrest, run_readWithin_of_rest_nil hrest]
  | succ length ih =>
      obtain ⟨bound, rfl⟩ := Nat.exists_eq_add_one_of_ne_zero (by omega : bound ≠ 0)
      obtain ⟨limit, rfl⟩ := Nat.exists_eq_add_one_of_ne_zero (by omega : limit ≠ 0)
      have hinner := @ih bound limit (by omega) (by omega)
      have hoperators := sameUpTo_operators
        (sameUpTo_prefixOperators (sameUpTo_operand hinner) hbound hlimit) hbound hlimit
      rw [readWithin, readWithin]
      refine sameUpTo_bind hoperators fun target cursor hlength => ?_
      rw [EStateM.run_bind, EStateM.run_bind, run_head]
      dsimp only
      split
      · rename_i hhead
        refine run_advance_bind_congr (by rw [hhead]; decide) hlength ?_
        exact sameUpTo_bind hinner fun _ => sameUpTo_refl _
      · rfl

end Expr

/-! ### Rounds that do the same -/

namespace Reading

variable {length less : Nat} {round other : Reading (List Stmt)} {stops : Cursor → Bool}

/-- Before the end, where at most so many tokens are left, both do the same and consume a token. -/
structure SameRounds (length : Nat) (round other : Reading (List Stmt)) : Prop where
  productive : Productive length round
  run_eq : ∀ cursor : Cursor, cursor.atEnd = false → cursor.rest.length ≤ length →
    round.run cursor = other.run cursor

theorem SameRounds.mono (hsame : SameRounds length round other) (hless : less ≤ length) :
    SameRounds less round other :=
  ⟨fun cursor hbefore hlength => hsame.productive cursor hbefore (hlength.trans hless),
    fun cursor hbefore hlength => hsame.run_eq cursor hbefore (hlength.trans hless)⟩

theorem SameRounds.rounds (hsame : SameRounds length round other)
    (hend : ∀ cursor : Cursor, cursor.atEnd = true → stops cursor = true) {cursor last : Cursor}
    {found : List Stmt} (hlength : cursor.rest.length ≤ length)
    (hrounds : Rounds round stops cursor found last) : Rounds other stops cursor found last := by
  induction hrounds with
  | done hstops => exact .done hstops
  | @next cursor between last first others hgoes hrun hless _ ih =>
      have hbefore : cursor.atEnd = false := by
        by_contra hatEnd
        rw [hend cursor (by simpa using hatEnd)] at hgoes
        cases hgoes
      rw [hsame.run_eq cursor hbefore hlength] at hrun
      exact .next hgoes hrun hless (ih (by omega))

theorem SameRounds.sameUpTo_repeated (hsame : SameRounds length round other)
    (hend : ∀ cursor : Cursor, cursor.atEnd = true → stops cursor = true) {bound limit : Nat}
    (hbound : length ≤ bound) (hlimit : length ≤ limit) :
    SameUpTo length (repeated round stops bound) (repeated other stops limit) := by
  intro cursor hlength
  obtain ⟨found, last, hrounds⟩ := hsame.productive.exists_rounds hend hlength
  rw [hrounds.run_repeated (hlength.trans hbound),
    (hsame.rounds hend hlength hrounds).run_repeated (hlength.trans hlimit)]

theorem sameUpTo_recovering (hsame : SameUpTo length round other) :
    SameUpTo length (Stmt.recovering round) (Stmt.recovering other) := by
  intro cursor hlength
  rw [Stmt.run_recovering, Stmt.run_recovering, hsame cursor hlength]

end Reading

/-! ### Statements -/

namespace Stmt

section Bounded

variable {length bound limit : Nat} (hbound : length ≤ bound) (hlimit : length ≤ limit)

include hbound hlimit

theorem sameUpTo_declarator (type : ValueType) :
    SameUpTo length (declarator type bound) (declarator type limit) := by
  refine sameUpTo_bind (sameUpTo_refl _) fun _ => sameUpTo_bind (sameUpTo_refl _) fun _ => ?_
  refine sameUpTo_ite ?_ (sameUpTo_refl _)
  exact sameUpTo_bind (Expr.sameUpTo_readWithin hbound hlimit) fun _ => sameUpTo_refl _

theorem sameUpTo_declarations (type : ValueType) (line : Nat) :
    SameUpTo length (declarations type line bound) (declarations type line limit) := by
  have hnames := sameUpTo_separated (sameUpTo_declarator hbound hlimit type) hbound hlimit
  refine sameUpTo_get_bind fun cursor => sameUpTo_ite ?_ hnames
  exact sameUpTo_bind (sameUpTo_refl _) fun _ => hnames

theorem sameUpTo_forClause : SameUpTo length (forClause bound) (forClause limit) := by
  refine sameUpTo_bind (sameUpTo_refl _) fun token => ?_
  split
  · exact sameUpTo_bind (sameUpTo_refl _) fun _ => sameUpTo_declarator hbound hlimit _
  · exact sameUpTo_bind (Expr.sameUpTo_readWithin hbound hlimit) fun _ => sameUpTo_refl _

theorem sameUpTo_forInitializer :
    SameUpTo length (forInitializer bound) (forInitializer limit) := by
  refine sameUpTo_bind (sameUpTo_refl _) fun _ => sameUpTo_ite (sameUpTo_refl _) ?_
  exact sameUpTo_bind (sameUpTo_forClause hbound hlimit) fun _ => sameUpTo_refl _

theorem sameUpTo_optionalClause (closing : Kind) :
    SameUpTo length (optionalClause closing bound) (optionalClause closing limit) := by
  refine sameUpTo_get_bind fun _ => sameUpTo_ite (sameUpTo_refl _) ?_
  exact sameUpTo_bind (Expr.sameUpTo_readWithin hbound hlimit) fun _ => sameUpTo_refl _

variable {inner other : Reading (List Stmt)} (hinner : SameRounds length inner other)

include hinner

theorem sameUpTo_items (closing : Kind) :
    SameUpTo length (items inner closing bound) (items other closing limit) := by
  rw [items_eq_repeated, items_eq_repeated]
  exact hinner.sameUpTo_repeated (fun _ => endsBody_of_atEnd closing) hbound hlimit

variable [Forward inner]

theorem sameUpTo_body (closing : Kind) (message : String) :
    SameUpTo length (body inner closing message bound) (body other closing message limit) :=
  sameUpTo_bind (sameUpTo_items hbound hlimit hinner closing) fun _ => sameUpTo_refl _

theorem sameUpTo_keywordBody (keyword : Kind) (openMessage closeMessage : String) :
    SameUpTo length (keywordBody inner keyword openMessage closeMessage bound)
      (keywordBody other keyword openMessage closeMessage limit) := by
  refine sameUpTo_bind (sameUpTo_refl _) fun _ => sameUpTo_bind (sameUpTo_refl _) fun _ => ?_
  exact sameUpTo_bind (sameUpTo_body hbound hlimit hinner _ _) fun _ => sameUpTo_refl _

theorem sameUpTo_keywordBlock (keyword : Kind) (openMessage closeMessage : String) :
    SameUpTo length (keywordBlock inner keyword openMessage closeMessage bound)
      (keywordBlock other keyword openMessage closeMessage limit) :=
  sameUpTo_bind (sameUpTo_keywordBody hbound hlimit hinner _ _ _) fun _ => sameUpTo_refl _

theorem sameUpTo_conditionalFrom (line : Nat) :
    SameUpTo length (conditionalFrom inner bound line) (conditionalFrom other limit line) := by
  induction length generalizing bound limit line with
  | zero =>
      intro cursor hlength
      have hrest : cursor.rest = [] := List.eq_nil_of_length_eq_zero (Nat.le_zero.mp hlength)
      have hfails (inner : Reading (List Stmt)) (bound : Nat) :
          (conditionalFrom inner bound line).run cursor =
            (conditionalFrom inner 0 line).run cursor := by
        obtain ⟨rest, executable, codeSeen, report⟩ := cursor
        subst hrest
        cases bound <;> rfl
      rw [hfails inner, hfails other]
      rfl
  | succ length ih =>
      obtain ⟨bound, rfl⟩ := Nat.exists_eq_add_one_of_ne_zero (by omega : bound ≠ 0)
      obtain ⟨limit, rfl⟩ := Nat.exists_eq_add_one_of_ne_zero (by omega : limit ≠ 0)
      have hblock := sameUpTo_keywordBlock hbound hlimit hinner
      rw [conditionalFrom_succ, conditionalFrom_succ]
      refine sameUpTo_bind (sameUpTo_refl _) fun _ => ?_
      refine sameUpTo_bind (Expr.sameUpTo_readWithin hbound hlimit) fun condition => ?_
      refine sameUpTo_bind (sameUpTo_refl _) fun _ => ?_
      refine sameUpTo_bind (hblock _ _ _) fun thenBranch => ?_
      -- only a nested `IF` has a smaller bound, after the `ELSE` in front of it
      refine sameUpTo_accept_bind (by decide) ?_ (sameUpTo_refl _)
      refine sameUpTo_bind (sameUpTo_refl _) fun next => ?_
      refine sameUpTo_bind (sameUpTo_refl _) fun _ => sameUpTo_ite ?_ ?_
      · exact sameUpTo_bind (ih (by omega) (by omega) (hinner.mono (by omega)) next.line) fun _ =>
          sameUpTo_refl _
      · exact sameUpTo_bind ((hblock _ _ _).mono (by omega)) fun _ => sameUpTo_refl _

theorem sameUpTo_loopFrom (line : Nat) :
    SameUpTo length (loopFrom inner bound line) (loopFrom other limit line) := by
  refine sameUpTo_bind (sameUpTo_refl _) fun _ => ?_
  refine sameUpTo_bind (Expr.sameUpTo_readWithin hbound hlimit) fun _ => ?_
  refine sameUpTo_bind (sameUpTo_refl _) fun _ => ?_
  exact sameUpTo_bind (sameUpTo_keywordBlock hbound hlimit hinner _ _ _) fun _ => sameUpTo_refl _

theorem sameUpTo_forLoopFrom (line : Nat) :
    SameUpTo length (forLoopFrom inner bound line) (forLoopFrom other limit line) := by
  have hclause := sameUpTo_optionalClause hbound hlimit
  refine sameUpTo_bind (sameUpTo_refl _) fun _ => ?_
  refine sameUpTo_bind (sameUpTo_forInitializer hbound hlimit) fun _ => ?_
  refine sameUpTo_bind (hclause _) fun _ => sameUpTo_bind (sameUpTo_refl _) fun _ => ?_
  refine sameUpTo_bind (hclause _) fun _ => sameUpTo_bind (sameUpTo_refl _) fun _ => ?_
  exact sameUpTo_bind (sameUpTo_keywordBody hbound hlimit hinner _ _ _) fun _ => sameUpTo_refl _

end Bounded

/-! Nested bodies come after the first token. -/

section Nested

variable {length bound limit : Nat} (hbound : length ≤ bound) (hlimit : length ≤ limit)
  {inner other : Reading (List Stmt)} [Forward inner] (hinner : SameRounds (length - 1) inner other)

include hbound hlimit hinner

theorem sameUpTo_statement : SameUpTo length (statement inner bound) (statement other limit) := by
  have hless : length - 1 ≤ bound := by omega
  have hlessOther : length - 1 ≤ limit := by omega
  intro cursor hlength
  rw [statement, statement, EStateM.run_bind, EStateM.run_bind, run_head]
  dsimp only
  split
  case h_1 hhead =>
    refine run_advance_bind_congr (by rw [hhead]; decide) hlength ?_
    exact sameUpTo_bind (sameUpTo_refl _) fun _ =>
      sameUpTo_conditionalFrom hless hlessOther hinner _
  case h_2 hhead =>
    refine run_advance_bind_congr (by rw [hhead]; decide) hlength ?_
    exact sameUpTo_bind (sameUpTo_refl _) fun _ => sameUpTo_loopFrom hless hlessOther hinner _
  case h_3 hhead =>
    refine run_advance_bind_congr (by rw [hhead]; decide) hlength ?_
    exact sameUpTo_bind (sameUpTo_refl _) fun _ => sameUpTo_forLoopFrom hless hlessOther hinner _
  case h_4 hhead =>
    refine run_advance_bind_congr (by rw [hhead]; decide) hlength ?_
    refine sameUpTo_bind (sameUpTo_refl _) fun _ => sameUpTo_bind (sameUpTo_refl _) fun _ => ?_
    exact sameUpTo_bind (Expr.sameUpTo_readWithin hless hlessOther) fun _ => sameUpTo_refl _
  case h_5 hhead =>
    refine run_advance_bind_congr (by rw [hhead]; decide) hlength ?_
    refine sameUpTo_bind (sameUpTo_refl _) fun _ => sameUpTo_bind (sameUpTo_refl _) fun _ => ?_
    exact sameUpTo_bind (sameUpTo_separated (sameUpTo_refl _) hless hlessOther) fun _ =>
      sameUpTo_refl _
  case h_6 =>
    have hexpression : SameUpTo length
        (startExecutable >>= fun _ => Expr.readWithin bound >>= fun expr => pure (ofExpr expr))
        (startExecutable >>= fun _ => Expr.readWithin limit >>= fun expr => pure (ofExpr expr)) :=
      sameUpTo_bind (sameUpTo_refl _) fun _ =>
        sameUpTo_bind (Expr.sameUpTo_readWithin hbound hlimit) fun _ => sameUpTo_refl _
    exact hexpression cursor hlength

theorem run_codeBlock_congr {cursor : Cursor} (hbegin : cursor.seesPair .kwBegin .kwCode = true)
    (hlength : cursor.rest.length ≤ length) :
    (codeBlock inner bound).run cursor = (codeBlock other limit).run cursor := by
  obtain ⟨one, two, rest, hrest, hone, -⟩ := Cursor.seesPair_eq_true.mp hbegin
  have hhead : cursor.head.kind ≠ .endOfInput := by
    rw [Cursor.head_cons hrest, hone]
    decide
  have hless : length - 1 ≤ bound := by omega
  have hlessOther : length - 1 ≤ limit := by omega
  have hbody := sameUpTo_body hless hlessOther hinner
  rw [codeBlock, codeBlock, EStateM.run_bind, EStateM.run_bind, EStateM.run_get]
  dsimp only
  refine run_advance_bind_congr hhead hlength ?_
  refine sameUpTo_bind (sameUpTo_refl _) fun _ => sameUpTo_ite ?_ ?_
  · refine sameUpTo_bind (sameUpTo_refl _) fun _ => ?_
    exact sameUpTo_bind (hbody _ _) fun _ => sameUpTo_refl _
  · refine sameUpTo_bind (sameUpTo_refl _) fun _ => ?_
    exact sameUpTo_bind (hbody _ _) fun _ => sameUpTo_refl _

theorem sameUpTo_item : SameUpTo length (item inner bound) (item other limit) := by
  intro cursor hlength
  rw [item, item, EStateM.run_bind, EStateM.run_bind, EStateM.run_get]
  dsimp only
  split
  · rename_i type htype
    exact sameUpTo_bind (sameUpTo_refl _)
      (fun _ => sameUpTo_declarations hbound hlimit type _) cursor hlength
  · by_cases hbegin : cursor.seesPair .kwBegin .kwCode
    · rw [if_pos hbegin, if_pos hbegin]
      exact run_codeBlock_congr hbound hlimit hinner hbegin hlength
    · rw [if_neg hbegin, if_neg hbegin]
      exact sameUpTo_bind (sameUpTo_statement hbound hlimit hinner)
        (fun _ => sameUpTo_refl _) cursor hlength

end Nested

theorem sameRounds_readItem {length bound limit : Nat} (hbound : length ≤ bound)
    (hlimit : length ≤ limit) : SameRounds length (readItem bound) (readItem limit) := by
  induction length generalizing bound limit with
  | zero =>
      refine ⟨fun cursor hbefore hlength => ?_, fun cursor hbefore hlength => ?_⟩
      all_goals
        have hrest : cursor.rest = [] := List.eq_nil_of_length_eq_zero (Nat.le_zero.mp hlength)
        rw [Cursor.atEnd, head_of_rest_nil hrest] at hbefore
        cases hbefore
  | succ length ih =>
      obtain ⟨bound, rfl⟩ := Nat.exists_eq_add_one_of_ne_zero (by omega : bound ≠ 0)
      obtain ⟨limit, rfl⟩ := Nat.exists_eq_add_one_of_ne_zero (by omega : limit ≠ 0)
      have hinner := @ih bound limit (by omega) (by omega)
      refine ⟨fun cursor hbefore hlength => ?_, fun cursor _ hlength => ?_⟩
      · exact productive_readItem (bound + 1) cursor hbefore (hlength.trans hbound)
      · exact sameUpTo_recovering (sameUpTo_item hbound hlimit hinner) cursor hlength

end Stmt

/-! ### Programs -/

namespace Program

variable {length bound limit : Nat} (hbound : length ≤ bound) (hlimit : length ≤ limit)

include hbound hlimit

theorem sameUpTo_topLevel : SameUpTo length (topLevel bound) (topLevel limit) := by
  intro cursor hlength
  rw [topLevel, topLevel, EStateM.run_bind, EStateM.run_bind, EStateM.run_get]
  dsimp only
  by_cases hbegin : cursor.seesPair .kwBegin .kwCode
  · rw [if_pos hbegin, if_pos hbegin]
    have hinner := (Stmt.sameRounds_readItem hbound hlimit).mono (Nat.sub_le length 1)
    exact Stmt.run_codeBlock_congr hbound hlimit hinner hbegin hlength
  · rw [if_neg hbegin, if_neg hbegin]

theorem sameRounds_topLevel :
    SameRounds length (Stmt.recovering (topLevel bound)) (Stmt.recovering (topLevel limit)) :=
  ⟨productive_topLevel bound length,
    fun cursor _ => sameUpTo_recovering (sameUpTo_topLevel hbound hlimit) cursor⟩

theorem sameUpTo_topLevels {rounds turns : Nat} (hrounds : length ≤ rounds)
    (hturns : length ≤ turns) :
    SameUpTo length (topLevels bound rounds) (topLevels limit turns) := by
  rw [topLevels_eq_repeated, topLevels_eq_repeated]
  exact (sameRounds_topLevel hbound hlimit).sameUpTo_repeated (fun _ => id) hrounds hturns

end Program

end BeginCode
