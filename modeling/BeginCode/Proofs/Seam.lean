import BeginCode.Proofs.Forward
import BeginCode.Proofs.Lockstep
import Mathlib.Data.List.Forall2

/-!
# Reading up to a seam

Two lists of tokens begin with the same tokens and part at a seam, where both go on with a token at
which reading resumes after an error. No expression and no list of names extends beyond such a
token. So these are read alike in both lists: with the same result or the same error, save that an
error at the seam describes the token that follows there.
-/

namespace BeginCode

open BeginCode.Token (Kind)
open BeginCode.Reading

/-- What one of the two lists has after the seam, and what was reported before it was read. -/
structure Side where
  next : Token
  rest : List Token
  entries : List Report.Entry
  resumes : next.kind.resumes = true

theorem Token.Kind.ne_of_resumes {kind other : Kind} (hkind : kind.resumes = true)
    (hother : other.resumes = false) : kind ≠ other := by
  rintro rfl
  rw [hkind] at hother
  cases hother

/-- The same error, or the same kind of error with the same message at the second token in place of
the first. -/
inductive SyntaxError.SameSave (first second : Token) : SyntaxError → SyntaxError → Prop where
  | same (error : SyntaxError) : SameSave first second error error
  | unexpectedToken (message : String) :
      SameSave first second ⟨.unexpectedToken message first.describe, first.line⟩
        ⟨.unexpectedToken message second.describe, second.line⟩
  | expectedExpression :
      SameSave first second ⟨.expectedExpression first.describe, first.line⟩
        ⟨.expectedExpression second.describe, second.line⟩

variable {first second : Side} {shared : List Token} {token : Token} {one two : Cursor}

/-! ### Cursors before the seam -/

/-- In a program block, both cursors have these tokens left before the seam, and they have found the
same errors. -/
structure Cursor.AbreastWith (first second : Side) (shared : List Token) (one two : Cursor) :
    Prop where
  continues : ∀ token ∈ shared, token.kind.resumes = false
  one_rest : one.rest = shared ++ first.next :: first.rest
  two_rest : two.rest = shared ++ second.next :: second.rest
  codeSeen : one.codeSeen = true ∧ two.codeSeen = true
  reports : ∃ errors others, one.report.entries = first.entries ++ errors.map .grammatical ∧
    two.report.entries = second.entries ++ others.map .grammatical ∧
    List.Forall₂ (SyntaxError.SameSave first.next second.next) errors others

def Cursor.Abreast (first second : Side) (one two : Cursor) : Prop :=
  ∃ shared, Cursor.AbreastWith first second shared one two

namespace Cursor

theorem AbreastWith.heads (habreast : AbreastWith first second (token :: shared) one two) :
    one.head = token ∧ two.head = token :=
  ⟨head_cons habreast.one_rest, head_cons habreast.two_rest⟩

theorem AbreastWith.seam (habreast : AbreastWith first second [] one two) :
    one.head = first.next ∧ two.head = second.next :=
  ⟨head_cons habreast.one_rest, head_cons habreast.two_rest⟩

theorem AbreastWith.continues_head
    (habreast : AbreastWith first second (token :: shared) one two) :
    token.kind.resumes = false := habreast.continues token List.mem_cons_self

theorem AbreastWith.advance (habreast : AbreastWith first second (token :: shared) one two) :
    AbreastWith first second shared one.advance two.advance := by
  have hkind : token.kind ≠ .endOfInput := (Kind.ne_of_resumes rfl habreast.continues_head).symm
  rw [advance_cons habreast.one_rest hkind, advance_cons habreast.two_rest hkind]
  exact ⟨fun other hother => habreast.continues other (List.mem_cons_of_mem _ hother), rfl, rfl,
    habreast.codeSeen, habreast.reports⟩

theorem AbreastWith.addError (habreast : AbreastWith first second shared one two)
    {error other : SyntaxError}
    (hsame : SyntaxError.SameSave first.next second.next error other) :
    AbreastWith first second shared (one.addError error) (two.addError other) := by
  obtain ⟨errors, others, hone, htwo, hall⟩ := habreast.reports
  refine ⟨habreast.continues, habreast.one_rest, habreast.two_rest, habreast.codeSeen,
    errors ++ [error], others ++ [other], ?_, ?_, ?_⟩
  · rw [Cursor.addError, Report.entries_add, hone, List.map_append, List.append_assoc,
      List.map_singleton]
  · rw [Cursor.addError, Report.entries_add, htwo, List.map_append, List.append_assoc,
      List.map_singleton]
  · exact List.rel_append hall (.cons hsame .nil)

end Cursor

/-! ### Readings that do not look beyond the seam -/

namespace Reading

variable {α β : Type}

/-- From these cursors, both readings do the same before the seam. -/
def LocalFrom (first second : Side) (before : Cursor → Cursor → Prop)
    (reading other : Reading α) : Prop :=
  InStep before (Cursor.Abreast first second) (SyntaxError.SameSave first.next second.next) Eq
    reading other

/-- The reading does the same on both sides. -/
def Local (first second : Side) (reading : Reading α) : Prop :=
  LocalFrom first second (Cursor.Abreast first second) reading reading

variable {reading other : Reading α} {next : α → Reading β}

theorem Local.from (hreading : Local first second reading) (shared : List Token) :
    LocalFrom first second (Cursor.AbreastWith first second shared) reading reading :=
  fun one two habreast => hreading one two ⟨shared, habreast⟩

/-- Before a shared token and at the seam. -/
theorem local_of_cases
    (hshared : ∀ token shared, token.kind.resumes = false →
      LocalFrom first second (Cursor.AbreastWith first second (token :: shared)) reading reading)
    (hseam : LocalFrom first second (Cursor.AbreastWith first second []) reading reading) :
    Local first second reading := by
  rintro one two ⟨shared, habreast⟩
  cases shared with
  | nil => exact hseam one two habreast
  | cons token shared => exact hshared token shared habreast.continues_head one two habreast

theorem local_pure (result : α) : Local first second (pure result) := inStep_pure rfl

theorem localFrom_bind {before : Cursor → Cursor → Prop}
    (hreading : LocalFrom first second before reading other)
    (hnext : ∀ result, Local first second (next result)) :
    LocalFrom first second before (reading >>= next) (other >>= next) := by
  refine inStep_bind hreading ?_
  rintro result _ rfl
  exact hnext result

theorem local_bind (hreading : Local first second reading)
    (hnext : ∀ result, Local first second (next result)) :
    Local first second (reading >>= next) := localFrom_bind hreading hnext

theorem local_ite {condition : Prop} [Decidable condition] (hreading : Local first second reading)
    (hother : Local first second other) :
    Local first second (if condition then reading else other) :=
  inStep_ite .rfl (fun _ => hreading) fun _ => hother

theorem localFrom_head_bind {next : Token → Reading β}
    (hnext : LocalFrom first second (Cursor.AbreastWith first second (token :: shared))
      (next token) (next token)) :
    LocalFrom first second (Cursor.AbreastWith first second (token :: shared)) (head >>= next)
      (head >>= next) := by
  intro one two habreast
  rw [EStateM.run_bind, EStateM.run_bind, run_head, run_head]
  dsimp only
  rw [habreast.heads.1, habreast.heads.2]
  exact hnext one two habreast

theorem localFrom_advance_bind {next : Unit → Reading β} (hnext : Local first second (next ())) :
    LocalFrom first second (Cursor.AbreastWith first second (token :: shared)) (advance >>= next)
      (advance >>= next) :=
  fun one two habreast => hnext one.advance two.advance ⟨shared, habreast.advance⟩

theorem local_expect {kind : Kind} (hkind : kind.resumes = false) (message : String) :
    Local first second (expect kind message) := by
  refine local_of_cases (fun token shared _ one two habreast => ?_) fun one two habreast => ?_
  · rw [run_expect, run_expect, habreast.heads.1, habreast.heads.2]
    by_cases htoken : token.kind = kind
    · rw [if_pos htoken, if_pos htoken]
      exact .ok rfl ⟨shared, habreast.advance⟩
    · rw [if_neg htoken, if_neg htoken]
      exact .error (.same _) ⟨_, habreast⟩
  · rw [run_expect, run_expect, habreast.seam.1, habreast.seam.2,
      if_neg (Kind.ne_of_resumes first.resumes hkind),
      if_neg (Kind.ne_of_resumes second.resumes hkind)]
    exact .error (.unexpectedToken message) ⟨_, habreast⟩

theorem local_accept {kind : Kind} (hkind : kind.resumes = false) :
    Local first second (accept kind) := by
  refine local_of_cases (fun token shared _ one two habreast => ?_) fun one two habreast => ?_
  · rw [run_accept, run_accept, habreast.heads.1, habreast.heads.2]
    by_cases htoken : token.kind = kind
    · rw [if_pos htoken, if_pos htoken]
      exact .ok rfl ⟨shared, habreast.advance⟩
    · rw [if_neg htoken, if_neg htoken]
      exact .ok rfl ⟨_, habreast⟩
  · rw [run_accept, run_accept, habreast.seam.1, habreast.seam.2,
      if_neg (Kind.ne_of_resumes first.resumes hkind),
      if_neg (Kind.ne_of_resumes second.resumes hkind)]
    exact .ok rfl ⟨_, habreast⟩

theorem local_report (cause : SyntaxCause) (line : Nat) :
    Local first second (report cause line) := by
  rintro one two ⟨shared, habreast⟩
  exact .ok rfl ⟨shared, habreast.addError (.same _)⟩

theorem local_separated (hreading : Local first second reading) (bound : Nat) :
    Local first second (separated reading bound) := by
  induction bound with
  | zero => exact local_bind hreading fun _ => local_pure _
  | succ bound ih =>
      refine local_bind hreading fun result => local_bind (local_accept rfl) fun _ => ?_
      exact local_ite (local_bind ih fun _ => local_pure _) (local_pure _)

end Reading

/-! ### Expressions -/

namespace Expr

theorem seesOperand_of_resumes {cursor : Cursor} (hresumes : cursor.head.kind.resumes = true)
    (symbol : Token) : cursor.seesOperand symbol = false := by
  have hnone : ∀ kind : Kind, kind.resumes = true → kind.beginsOperand = false := by
    intro kind
    cases kind <;> decide
  rw [Cursor.seesOperand, hnone _ hresumes, Bool.and_false]

/-- Both sides agree on whether an operand of a line-break symbol follows. -/
theorem seesOperand_eq (habreast : Cursor.Abreast first second one two) (symbol : Token) :
    one.seesOperand symbol = two.seesOperand symbol := by
  obtain ⟨shared, habreast⟩ := habreast
  cases shared with
  | nil =>
      rw [seesOperand_of_resumes (habreast.seam.1 ▸ first.resumes),
        seesOperand_of_resumes (habreast.seam.2 ▸ second.resumes)]
  | cons token shared =>
      rw [Cursor.seesOperand, Cursor.seesOperand, habreast.heads.1, habreast.heads.2]

/-- Whether an operator that may be the line-break symbol stands alone. -/
theorem local_unless_seesOperand {condition : Bool} {symbol : Token} {alone reading : Reading Expr}
    (halone : Local first second alone) (hreading : Local first second reading) :
    Local first second (do
      if condition && !(← get).seesOperand symbol then alone else reading) := by
  intro one two habreast
  rw [EStateM.run_bind, EStateM.run_bind, EStateM.run_get, EStateM.run_get]
  dsimp only
  rw [seesOperand_eq habreast]
  exact local_ite halone hreading one two habreast

section Chain

variable {join? : Kind → Option Join} {operand : Reading Expr}

theorem local_chainFrom (hjoins : ∀ {kind : Kind}, kind.resumes = true → join? kind = none)
    (hoperand : Local first second operand) (bound : Nat) (left : Expr) :
    Local first second (chainFrom join? operand bound left) := by
  induction bound generalizing left with
  | zero => exact local_pure left
  | succ bound ih =>
      rw [chainFrom]
      refine local_of_cases (fun token shared _ => localFrom_head_bind ?_) ?_
      · cases join? token.kind with
        | none => exact (local_pure left).from _
        | some join =>
            refine localFrom_advance_bind (local_bind ?_ fun right => ih _)
            exact local_unless_seesOperand (local_pure _) hoperand
      · intro one two habreast
        rw [EStateM.run_bind, EStateM.run_bind, run_head, run_head]
        dsimp only
        rw [habreast.seam.1, habreast.seam.2, hjoins first.resumes, hjoins second.resumes]
        exact .ok rfl ⟨_, habreast⟩

theorem local_chain (hjoins : ∀ {kind : Kind}, kind.resumes = true → join? kind = none)
    (hoperand : Local first second operand) (bound : Nat) :
    Local first second (chain join? bound operand) :=
  local_bind hoperand fun left => local_chainFrom hjoins hoperand bound left

end Chain

theorem local_operators {operand : Reading Expr} (hoperand : Local first second operand)
    (bound : Nat) : Local first second (operators bound operand) := by
  unfold operators
  iterate 6
    refine local_chain (fun {kind} hresumes => by cases kind <;> first | rfl | cases hresumes) ?_ _
  exact hoperand

theorem local_prefixOperators {operand : Reading Expr} (hoperand : Local first second operand)
    (bound : Nat) : Local first second (prefixOperators operand bound) := by
  induction bound with
  | zero => exact hoperand
  | succ bound ih =>
      rw [prefixOperators]
      refine local_of_cases (fun token shared _ => localFrom_head_bind ?_) ?_
      · cases prefixed? token.kind with
        | none => exact hoperand.from _
        | some op =>
            refine localFrom_advance_bind (local_unless_seesOperand (local_pure _) ?_)
            exact local_bind ih fun _ => local_pure _
      · intro one two habreast
        have hnone {kind : Kind} (hresumes : kind.resumes = true) : prefixed? kind = none := by
          cases kind <;> first | rfl | cases hresumes
        rw [EStateM.run_bind, EStateM.run_bind, run_head, run_head]
        dsimp only
        rw [habreast.seam.1, habreast.seam.2, hnone first.resumes, hnone second.resumes]
        exact hoperand one two ⟨_, habreast⟩

theorem local_missing : Local first second missing := by
  refine local_of_cases (fun token shared _ one two habreast => ?_) fun one two habreast => ?_
  · rw [missing, run_fail, run_fail, habreast.heads.1, habreast.heads.2]
    exact .error (.same _) ⟨_, habreast⟩
  · rw [missing, run_fail, run_fail, habreast.seam.1, habreast.seam.2]
    exact .error .expectedExpression ⟨_, habreast⟩

theorem run_operand_of_resumes (inner : Reading Expr) {cursor : Cursor}
    (hresumes : cursor.head.kind.resumes = true) :
    (operand inner).run cursor = missing.run cursor := by
  rw [operand, EStateM.run_bind, run_head]
  dsimp only
  split
  case h_11 => rfl
  all_goals
    rename_i hhead
    rw [hhead] at hresumes
    cases hresumes

theorem local_operand {inner : Reading Expr} (hinner : Local first second inner) :
    Local first second (operand inner) := by
  refine local_of_cases (fun token shared _ => localFrom_head_bind ?_) ?_
  · split
    case h_10 =>
      refine localFrom_advance_bind (local_bind hinner fun _ => ?_)
      exact local_bind (local_expect rfl _) fun _ => local_pure _
    case h_11 => exact local_missing.from _
    all_goals exact localFrom_advance_bind (local_pure _)
  · intro one two habreast
    rw [run_operand_of_resumes inner (habreast.seam.1 ▸ first.resumes),
      run_operand_of_resumes inner (habreast.seam.2 ▸ second.resumes)]
    exact local_missing one two ⟨_, habreast⟩

theorem local_assigned (target value : Expr) (operator : Token) :
    Local first second (assigned target value operator) := by
  cases target with
  | «variable» name => exact local_pure _
  | _ => exact local_bind (local_report _ _) fun _ => local_pure _

theorem local_readWithin (bound : Nat) : Local first second (readWithin bound) := by
  induction bound with
  | zero => exact local_missing
  | succ bound ih =>
      rw [readWithin]
      refine local_bind (local_operators (local_prefixOperators (local_operand ih) _) _) ?_
      intro target
      refine local_of_cases (fun token shared _ => localFrom_head_bind ?_) ?_
      · by_cases hequals : token.kind = .equals
        · rw [if_pos hequals]
          exact localFrom_advance_bind (local_bind ih fun value => local_assigned _ _ _)
        · rw [if_neg hequals]
          exact (local_pure target).from _
      · intro one two habreast
        rw [EStateM.run_bind, EStateM.run_bind, run_head, run_head]
        dsimp only
        rw [habreast.seam.1, habreast.seam.2, if_neg (Kind.ne_of_resumes first.resumes rfl),
          if_neg (Kind.ne_of_resumes second.resumes rfl)]
        exact .ok rfl ⟨_, habreast⟩

end Expr

end BeginCode
