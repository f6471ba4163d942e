import BeginCode.Proofs.ProgramReading

/-!
# Reading makes progress

An expression, an item of a body and a program block consume a token when they are read. Where they
cannot be read, recovery consumes one if nothing was consumed before the error. So before the end
every round of a body and of a whole program leaves fewer tokens.
-/

namespace BeginCode

open BeginCode.Token (Kind)
open BeginCode.Reading

/-! ### Readings that consume -/

namespace Reading

variable {α β : Type} {first : Reading α} {next : α → Reading β} {cursor later : Cursor}

theorem length_le_of_ok [forward : Forward first] {result : α}
    (hrun : first.run cursor = .ok result later) :
    later.rest.length ≤ cursor.rest.length := by
  have hleads := forward.leadsTo cursor
  rw [final_of_ok hrun] at hleads
  exact hleads.length_le

/-- If the reading succeeds at the cursor, it consumes a token. -/
def ConsumesAt (reading : Reading α) (cursor : Cursor) : Prop :=
  ∀ result later, reading.run cursor = .ok result later →
    later.rest.length < cursor.rest.length

theorem consumesAt_bind (hfirst : first.ConsumesAt cursor) [∀ result, Forward (next result)] :
    (first >>= next).ConsumesAt cursor := by
  intro result later hrun
  rw [EStateM.run_bind] at hrun
  cases hbetween : first.run cursor with
  | ok found between =>
      rw [hbetween] at hrun
      have hlt := hfirst found between hbetween
      have hle := length_le_of_ok hrun
      omega
  | error error between =>
      rw [hbetween] at hrun
      cases hrun

theorem consumesAt_then [Forward first] (hnext : ∀ result later, (next result).ConsumesAt later) :
    (first >>= next).ConsumesAt cursor := by
  intro result later hrun
  rw [EStateM.run_bind] at hrun
  cases hbetween : first.run cursor with
  | ok found between =>
      rw [hbetween] at hrun
      have hle := length_le_of_ok hbetween
      have hlt := hnext found between result later hrun
      omega
  | error error between =>
      rw [hbetween] at hrun
      cases hrun

theorem consumesAt_get_bind {next : Cursor → Reading β} (hnext : (next cursor).ConsumesAt cursor) :
    ((get : Reading Cursor) >>= next).ConsumesAt cursor := hnext

theorem consumesAt_head_bind {next : Token → Reading β}
    (hnext : (next cursor.head).ConsumesAt cursor) : (head >>= next).ConsumesAt cursor := hnext

theorem consumesAt_fail {cause : Token → SyntaxCause} :
    (fail cause : Reading α).ConsumesAt cursor := by
  intro result later hrun
  cases hrun

theorem length_advance_lt (hkind : cursor.head.kind ≠ .endOfInput) :
    cursor.advance.rest.length < cursor.rest.length := by
  obtain ⟨rest, hrest, hadvance⟩ := Cursor.rest_eq_cons hkind
  rw [hadvance, Cursor.rest_goTo, hrest, List.length_cons]
  omega

theorem consumesAt_advance (hkind : cursor.head.kind ≠ .endOfInput) :
    advance.ConsumesAt cursor := by
  intro result later hrun
  cases hrun
  exact length_advance_lt hkind

/-- A construct that begins with a token of another kind than the end of input. -/
theorem consumesAt_advance_bind {kind : Kind} {next : Unit → Reading β}
    [∀ result, Forward (next result)] (hhead : cursor.head.kind = kind)
    (hkind : kind ≠ .endOfInput) : (advance >>= next).ConsumesAt cursor := by
  subst hhead
  exact consumesAt_bind (consumesAt_advance hkind)

end Reading

/-! ### Expressions -/

namespace Expr

variable {cursor : Cursor}

theorem consumesAt_operand (inner : Reading Expr) [Forward inner] :
    (operand inner).ConsumesAt cursor := by
  have hliteral {kind : Kind} (hhead : cursor.head.kind = kind) (hkind : kind ≠ .endOfInput)
      (value : Value) : (operand.literal value cursor.head.line).ConsumesAt cursor :=
    consumesAt_advance_bind hhead hkind
  refine consumesAt_head_bind ?_
  split
  case h_9 hhead => exact consumesAt_advance_bind hhead (by decide)
  case h_10 hhead => exact consumesAt_advance_bind hhead (by decide)
  case h_11 => exact consumesAt_fail
  all_goals
    rename_i hhead
    exact hliteral hhead (by decide) _

theorem consumesAt_prefixOperators {operand : Reading Expr} [Forward operand]
    (hoperand : operand.ConsumesAt cursor) (bound : Nat) :
    (prefixOperators operand bound).ConsumesAt cursor := by
  cases bound with
  | zero => exact hoperand
  | succ bound =>
      refine consumesAt_head_bind ?_
      split
      · exact hoperand
      · rename_i op hop
        have hkind : cursor.head.kind ≠ .endOfInput := by
          intro hend
          rw [hend] at hop
          cases hop
        exact consumesAt_advance_bind rfl hkind

theorem consumesAt_chain {operand : Reading Expr} [Forward operand]
    (hoperand : operand.ConsumesAt cursor) (join? : Kind → Option Join) (bound : Nat) :
    (chain join? bound operand).ConsumesAt cursor := consumesAt_bind hoperand

theorem consumesAt_operators {operand : Reading Expr} [Forward operand]
    (hoperand : operand.ConsumesAt cursor) (bound : Nat) :
    (operators bound operand).ConsumesAt cursor := by
  unfold operators
  iterate 6 refine consumesAt_chain ?_ _ bound
  exact hoperand

theorem consumesAt_readWithin (bound : Nat) : (readWithin bound).ConsumesAt cursor := by
  cases bound with
  | zero => exact consumesAt_fail
  | succ bound =>
      exact consumesAt_bind (consumesAt_operators (consumesAt_prefixOperators
        (consumesAt_operand _) _) _)

end Expr

/-! ### Items -/

namespace Stmt

variable {cursor : Cursor} (inner : Reading (List Stmt)) [Forward inner]

theorem consumesAt_statement (bound : Nat) : (statement inner bound).ConsumesAt cursor := by
  refine consumesAt_head_bind ?_
  split
  case h_6 =>
    exact consumesAt_then fun _ _ => consumesAt_bind (Expr.consumesAt_readWithin bound)
  all_goals
    rename_i hhead
    exact consumesAt_advance_bind hhead (by decide)

theorem consumesAt_codeBlock (hbegin : cursor.seesPair .kwBegin .kwCode = true) (bound : Nat) :
    (codeBlock inner bound).ConsumesAt cursor := by
  obtain ⟨one, two, rest, hrest, hone, -⟩ := Cursor.seesPair_eq_true.mp hbegin
  have hhead : cursor.head.kind = .kwBegin := by rw [Cursor.head_cons hrest, hone]
  refine consumesAt_get_bind ?_
  exact consumesAt_advance_bind hhead (by decide)

theorem consumesAt_item (bound : Nat) : (item inner bound).ConsumesAt cursor := by
  refine consumesAt_get_bind ?_
  split
  · rename_i type htype
    have hkind : cursor.head.kind ≠ .endOfInput := by
      intro hend
      rw [hend] at htype
      cases htype
    exact consumesAt_advance_bind rfl hkind
  · split
    · rename_i hbegin
      exact consumesAt_codeBlock inner hbegin bound
    · exact consumesAt_bind (consumesAt_statement inner bound)

end Stmt

/-! ### Recovery -/

/-- If nothing was consumed before the error, recovery skips the first token. -/
theorem Cursor.length_resume_lt {cursor after : Cursor} (hleads : cursor.LeadsTo after)
    (hbefore : cursor.atEnd = false) :
    (after.resume cursor.rest.length).rest.length < cursor.rest.length := by
  by_cases hsame : after.rest.length = cursor.rest.length
  · obtain ⟨used, hused, -⟩ := hleads.rest
    have hnone : used.length = 0 := by
      have hlength := congrArg List.length hused
      rw [List.length_append] at hlength
      omega
    have hrest : after.rest = cursor.rest := by
      rw [hused, List.eq_nil_of_length_eq_zero hnone, List.nil_append]
    have hhead : after.head.kind ≠ .endOfInput := by
      rw [head_eq, hrest, ← head_eq]
      simpa [atEnd] using hbefore
    calc (after.resume cursor.rest.length).rest.length
        = (after.advance.rest.dropWhile fun token => !token.kind.resumes).length := by
          rw [resume, if_pos hsame]
      _ ≤ after.advance.rest.length := (List.dropWhile_sublist _).length_le
      _ < after.rest.length := length_advance_lt hhead
      _ = cursor.rest.length := hsame
  · have hle := hleads.length_le
    have hresume := (after.leadsTo_resume cursor.rest.length).length_le
    omega

/-- Whether the construct is read or not, a token is consumed. -/
theorem Stmt.exists_run_recovering_lt {construct : Reading (List Stmt)}
    [forward : Forward construct] {cursor : Cursor} (hconsumes : construct.ConsumesAt cursor)
    (hbefore : cursor.atEnd = false) :
    ∃ found later, (recovering construct).run cursor = .ok found later ∧
      later.rest.length < cursor.rest.length := by
  have hleads := forward.leadsTo cursor
  rw [run_recovering]
  cases hrun : construct.run cursor with
  | ok found after => exact ⟨found, after, rfl, hconsumes found after hrun⟩
  | error error after =>
      rw [final_of_error hrun] at hleads
      exact ⟨[], _, rfl,
        Cursor.length_resume_lt (hleads.trans (after.leadsTo_addError error)) hbefore⟩

/-! ### Rounds -/

namespace Reading

/-- One round after another until it is time to stop, each of which consumes a token. -/
inductive Rounds (round : Reading (List Stmt)) (stops : Cursor → Bool) :
    Cursor → List Stmt → Cursor → Prop where
  | done {cursor : Cursor} (hstops : stops cursor = true) : Rounds round stops cursor [] cursor
  | next {cursor between last : Cursor} {found others : List Stmt}
      (hgoes : stops cursor = false) (hround : round.run cursor = .ok found between)
      (hlength : between.rest.length < cursor.rest.length)
      (hothers : Rounds round stops between others last) :
      Rounds round stops cursor (found ++ others) last

/-- Before the end a round yields a result and consumes a token, if at most so many are left. -/
def Productive (length : Nat) (round : Reading (List Stmt)) : Prop :=
  ∀ cursor : Cursor, cursor.atEnd = false → cursor.rest.length ≤ length →
    ∃ found later, round.run cursor = .ok found later ∧
      later.rest.length < cursor.rest.length

variable {round other : Reading (List Stmt)} {stops : Cursor → Bool} {length : Nat}

/-- Productive rounds that stop at the end of input at the latest are finitely many. -/
theorem Productive.exists_rounds (hround : Productive length round)
    (hend : ∀ cursor : Cursor, cursor.atEnd = true → stops cursor = true) {cursor : Cursor}
    (hlength : cursor.rest.length ≤ length) :
    ∃ found last, Rounds round stops cursor found last := by
  induction hleft : cursor.rest.length using Nat.strong_induction_on generalizing cursor with
  | _ left ih =>
      cases hstops : stops cursor with
      | true => exact ⟨[], cursor, .done hstops⟩
      | false =>
          have hbefore : cursor.atEnd = false := by
            by_contra hatEnd
            rw [hend cursor (by simpa using hatEnd)] at hstops
            cases hstops
          obtain ⟨first, between, hrun, hlt⟩ := hround cursor hbefore hlength
          obtain ⟨others, last, hrounds⟩ := ih between.rest.length (by omega) (by omega) rfl
          exact ⟨first ++ others, last, .next hstops hrun hlt hrounds⟩

theorem Rounds.stops_last {cursor last : Cursor} {found : List Stmt}
    (hrounds : Rounds round stops cursor found last) : stops last = true := by
  induction hrounds with
  | done hstops => exact hstops
  | next _ _ _ _ ih => exact ih

/-- The rounds with a limit on their number. -/
def repeated (round : Reading (List Stmt)) (stops : Cursor → Bool) : Nat → Reading (List Stmt)
  | 0 => return []
  | bound + 1 => do
      if stops (← get) then
        return []
      else
        let first ← round
        return first ++ (← repeated round stops bound)

/-- A limit that is at least the number of tokens left is never reached. -/
theorem Rounds.run_repeated {cursor last : Cursor} {found : List Stmt}
    (hrounds : Rounds round stops cursor found last) {bound : Nat}
    (hbound : cursor.rest.length ≤ bound) :
    (repeated round stops bound).run cursor = .ok found last := by
  induction hrounds generalizing bound with
  | done hstops =>
      cases bound with
      | zero => rfl
      | succ bound =>
          rw [repeated, EStateM.run_bind, EStateM.run_get]
          simp only [hstops, if_true]
          rfl
  | @next cursor between last first others hgoes hrun hlength _ ih =>
      cases bound with
      | zero => omega
      | succ bound =>
          have hothers := @ih bound (by omega)
          rw [repeated, EStateM.run_bind, EStateM.run_get]
          simp only [hgoes, Bool.false_eq_true, if_false, EStateM.run_bind, hrun, hothers]
          rfl

end Reading

namespace Stmt

/-- Whether a body ends here, with its closing pair of keywords or with the input. -/
def endsBody (closing : Kind) (cursor : Cursor) : Bool :=
  cursor.seesPair .kwEnd closing || cursor.atEnd

theorem endsBody_of_atEnd (closing : Kind) {cursor : Cursor} (hend : cursor.atEnd = true) :
    endsBody closing cursor = true := by
  rw [endsBody, hend, Bool.or_true]

theorem items_eq_repeated (inner : Reading (List Stmt)) (closing : Kind) (bound : Nat) :
    items inner closing bound = repeated inner (endsBody closing) bound := by
  induction bound with
  | zero => rfl
  | succ bound ih =>
      rw [items, repeated, ih]
      rfl

theorem productive_readItem (bound : Nat) : Productive bound (readItem bound) := by
  intro cursor hbefore hlength
  cases bound with
  | zero =>
      have hnil : cursor.rest = [] := List.eq_nil_of_length_eq_zero (by omega)
      rw [Cursor.atEnd, Cursor.head_eq, hnil] at hbefore
      cases hbefore
  | succ bound => exact exists_run_recovering_lt (consumesAt_item _ _) hbefore

end Stmt

namespace Program

theorem topLevels_eq_repeated (bound rounds : Nat) :
    topLevels bound rounds =
      repeated (Stmt.recovering (topLevel bound)) Cursor.atEnd rounds := by
  induction rounds with
  | zero => rfl
  | succ rounds ih =>
      rw [topLevels, repeated, ih]

theorem consumesAt_topLevel (bound : Nat) {cursor : Cursor} :
    (topLevel bound).ConsumesAt cursor := by
  refine consumesAt_get_bind ?_
  split
  · rename_i hbegin
    exact Stmt.consumesAt_codeBlock _ hbegin bound
  · exact consumesAt_fail

theorem productive_topLevel (bound length : Nat) :
    Productive length (Stmt.recovering (topLevel bound)) :=
  fun _ hbefore _ => Stmt.exists_run_recovering_lt (consumesAt_topLevel bound) hbefore

end Program

end BeginCode
