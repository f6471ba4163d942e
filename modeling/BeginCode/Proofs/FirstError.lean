import BeginCode.Proofs.LineOrigins

/-!
# The first syntax error

Reading without recovery stops at the first error that ends a construct. Up to there it is the same
as reading with recovery, which records this error next. So if the first error of a parse ends its
construct, reading without recovery is silent until it fails with this error, and where it stops is
where the error was found.
-/

namespace BeginCode

open BeginCode.Token (Kind)
open BeginCode.Reading

/-! ### Reading without recovery -/

namespace Stmt

/-- Reads one item of a body as `readItem` does, but fails at an error that ends a construct. -/
def strictItem : Nat → Reading (List Stmt)
  | 0 => return []
  | bound + 1 => item (strictItem bound) (bound + 1)

instance forward_strictItem (bound : Nat) : Forward (strictItem bound) := by
  induction bound with
  | zero =>
      unfold strictItem
      infer_instance
  | succ bound ih =>
      unfold strictItem
      infer_instance

end Stmt

namespace Program

def strictTopLevel (bound : Nat) : Reading (List Stmt) := do
  if (← get).seesPair .kwBegin .kwCode then
    Stmt.codeBlock (Stmt.strictItem bound) bound
  else
    Reading.fail fun found => .codeOutsideBlock found.describe

def strictTopLevels (bound : Nat) : Nat → Reading (List Stmt)
  | 0 => return []
  | rounds + 1 => do
      if (← get).atEnd then
        return []
      else
        let first ← strictTopLevel bound
        return first ++ (← strictTopLevels bound rounds)

/-- Reads all that is left as `read` does, but fails at an error that ends a construct. -/
def strictRead : Reading (List Stmt) := do
  let bound := (← get).rest.length
  let found ← strictTopLevels bound bound
  let cursor ← get
  if !cursor.codeSeen && !cursor.report.hasStaticError then
    Reading.report .missingCodeBlock cursor.head.line
  return found

/-- The first error that ends a construct, and the number of tokens before the one at which it is
found. -/
def firstFailure? (tokens : List Token) : Option (SyntaxError × Nat) :=
  match strictRead.run { rest := tokens } with
  | .ok _ _ => none
  | .error error later => some (error, tokens.length - later.rest.length)

instance forward_strictTopLevel (bound : Nat) : Forward (strictTopLevel bound) := by
  unfold strictTopLevel
  infer_instance

instance forward_strictTopLevels (bound rounds : Nat) :
    Forward (strictTopLevels bound rounds) := by
  induction rounds with
  | zero =>
      unfold strictTopLevels
      infer_instance
  | succ rounds ih =>
      unfold strictTopLevels
      infer_instance

instance forward_strictRead : Forward strictRead := by
  unfold strictRead
  infer_instance

end Program

/-! ### Readings that record what others fail with -/

namespace Reading

variable {α β : Type}

/-- A reading that fails and reports nothing. -/
def Fails (reading : Reading α) (cursor : Cursor) (error : SyntaxError) (later : Cursor) : Prop :=
  reading.run cursor = .error error later ∧ later.report = cursor.report

theorem final_bind_of_ok {first : Reading α} {next : α → Reading β} {cursor between : Cursor}
    {result : α} (hrun : first.run cursor = .ok result between) :
    (first >>= next).final cursor = (next result).final between := by
  simp only [final, EStateM.run_bind, hrun]

theorem final_bind_of_error {first : Reading α} {next : α → Reading β} {cursor later : Cursor}
    {error : SyntaxError} (hrun : first.run cursor = .error error later) :
    (first >>= next).final cursor = later := by
  simp only [final, EStateM.run_bind, hrun]

/-- What has been reported in a first part stays in the report. -/
theorem report_final_bind (first : Reading α) (next : α → Reading β)
    [forward : ∀ result, Forward (next result)] (cursor : Cursor) :
    (first.final cursor).report.entries <+: ((first >>= next).final cursor).report.entries := by
  cases hrun : first.run cursor with
  | ok result between =>
      rw [final_of_ok hrun, final_bind_of_ok hrun]
      exact ((forward result).leadsTo between).report
  | error error later =>
      simp only [final_of_error hrun, final_bind_of_error hrun, List.prefix_rfl]

/-- The strict reading does the same as the other one, or it fails with an error that the other one
records right after what both have reported before. -/
def Shadows (strict reading : Reading α) : Prop :=
  ∀ cursor, strict.run cursor = reading.run cursor ∨
    ∃ error later, strict.run cursor = .error error later ∧
      later.report.entries ++ [.grammatical error] <+: (reading.final cursor).report.entries

theorem shadows_refl (reading : Reading α) : reading.Shadows reading := fun _ => .inl rfl

theorem shadows_bind {strict first : Reading α} {after next : α → Reading β}
    [∀ result, Forward (next result)] (hfirst : strict.Shadows first)
    (hnext : ∀ result, (after result).Shadows (next result)) :
    (strict >>= after).Shadows (first >>= next) := by
  intro cursor
  rw [EStateM.run_bind, EStateM.run_bind]
  rcases hfirst cursor with hsame | ⟨error, later, hstrict, hrecorded⟩
  · rw [hsame]
    cases hrun : first.run cursor with
    | error error later => exact .inl rfl
    | ok result between =>
        rw [final_bind_of_ok hrun]
        exact hnext result between
  · rw [hstrict]
    exact .inr ⟨error, later, rfl, hrecorded.trans (report_final_bind first next cursor)⟩

theorem shadows_ite {condition : Prop} [Decidable condition] {strict other first second : Reading α}
    (hfirst : strict.Shadows first) (hsecond : other.Shadows second) :
    (if condition then strict else other).Shadows (if condition then first else second) := by
  by_cases hcondition : condition
  · rw [if_pos hcondition, if_pos hcondition]
    exact hfirst
  · rw [if_neg hcondition, if_neg hcondition]
    exact hsecond

/-- Where recovery sets in, the error is recorded. -/
theorem shadows_recovering {strict construct : Reading (List Stmt)}
    (hconstruct : strict.Shadows construct) : strict.Shadows (Stmt.recovering construct) := by
  intro cursor
  rw [Stmt.run_recovering, Stmt.final_recovering]
  rcases hconstruct cursor with hsame | ⟨error, later, hstrict, hrecorded⟩
  · rw [hsame]
    cases hrun : construct.run cursor with
    | ok found after => exact .inl rfl
    | error error after =>
        refine .inr ⟨error, after, rfl, ?_⟩
        exact ((after.addError error).leadsTo_resume cursor.rest.length).report
  · refine .inr ⟨error, later, hstrict, hrecorded.trans ?_⟩
    cases hrun : construct.run cursor with
    | ok found after =>
        simp only [final_of_ok hrun, List.prefix_rfl]
    | error error after =>
        rw [final_of_error hrun]
        exact ((after.leadsTo_addError error).trans (Cursor.leadsTo_resume _ _)).report

/-- A strict reading is silent exactly where the other one is. -/
theorem Shadows.reads_iff {strict reading : Reading α} [forward : Forward strict]
    (hshadows : strict.Shadows reading) {cursor later : Cursor} {result : α} :
    strict.Reads cursor result later ↔ reading.Reads cursor result later := by
  unfold Reads
  rcases hshadows cursor with hsame | ⟨error, between, hstrict, hrecorded⟩
  · rw [hsame]
  · rw [hstrict]
    constructor
    · rintro ⟨hrun, -⟩
      cases hrun
    · rintro ⟨hrun, hreport⟩
      have hleads := (forward.leadsTo cursor).report.length_le
      have hlength := hrecorded.length_le
      rw [final_of_error hstrict] at hleads
      rw [final_of_ok hrun, hreport, List.length_append, List.length_singleton] at hlength
      omega

end Reading

namespace Stmt

section Nested

variable {strict inner : Reading (List Stmt)} [Forward inner] (hinner : strict.Shadows inner)

include hinner

theorem shadows_items (closing : Kind) (bound : Nat) :
    (items strict closing bound).Shadows (items inner closing bound) := by
  induction bound with
  | zero => exact shadows_refl _
  | succ bound ih =>
      refine shadows_bind (shadows_refl _) fun cursor => shadows_ite (shadows_refl _) ?_
      exact shadows_bind hinner fun _ => shadows_bind ih fun _ => shadows_refl _

theorem shadows_body (closing : Kind) (message : String) (bound : Nat) :
    (body strict closing message bound).Shadows (body inner closing message bound) :=
  shadows_bind (shadows_items hinner closing bound) fun _ => shadows_refl _

theorem shadows_keywordBody (keyword : Kind) (opening closing : String) (bound : Nat) :
    (keywordBody strict keyword opening closing bound).Shadows
      (keywordBody inner keyword opening closing bound) := by
  refine shadows_bind (shadows_refl _) fun _ => shadows_bind (shadows_refl _) fun _ => ?_
  exact shadows_bind (shadows_body hinner keyword closing bound) fun _ => shadows_refl _

theorem shadows_keywordBlock (keyword : Kind) (opening closing : String) (bound : Nat) :
    (keywordBlock strict keyword opening closing bound).Shadows
      (keywordBlock inner keyword opening closing bound) :=
  shadows_bind (shadows_keywordBody hinner keyword opening closing bound) fun _ => shadows_refl _

theorem shadows_conditionalFrom (bound line : Nat) :
    (conditionalFrom strict bound line).Shadows (conditionalFrom inner bound line) := by
  induction bound generalizing line with
  | zero => exact shadows_refl _
  | succ bound ih =>
      rw [conditionalFrom_succ, conditionalFrom_succ]
      refine shadows_bind (shadows_refl _) fun _ => shadows_bind (shadows_refl _) fun _ => ?_
      refine shadows_bind (shadows_refl _) fun _ => ?_
      refine shadows_bind (shadows_keywordBlock hinner .kwIf _ _ (bound + 1)) fun _ => ?_
      refine shadows_bind (shadows_refl _) fun _ => shadows_ite ?_ (shadows_refl _)
      refine shadows_bind (shadows_refl _) fun next => shadows_bind (shadows_refl _) fun _ => ?_
      refine shadows_ite ?_ ?_
      · exact shadows_bind (ih next.line) fun _ => shadows_refl _
      · exact shadows_bind (shadows_keywordBlock hinner .kwIf _ _ (bound + 1)) fun _ =>
          shadows_refl _

theorem shadows_loopFrom (bound line : Nat) :
    (loopFrom strict bound line).Shadows (loopFrom inner bound line) := by
  refine shadows_bind (shadows_refl _) fun _ => shadows_bind (shadows_refl _) fun _ => ?_
  refine shadows_bind (shadows_refl _) fun _ => ?_
  exact shadows_bind (shadows_keywordBlock hinner .kwWhile _ _ bound) fun _ => shadows_refl _

theorem shadows_forLoopFrom (bound line : Nat) :
    (forLoopFrom strict bound line).Shadows (forLoopFrom inner bound line) := by
  refine shadows_bind (shadows_refl _) fun _ => shadows_bind (shadows_refl _) fun _ => ?_
  refine shadows_bind (shadows_refl _) fun _ => shadows_bind (shadows_refl _) fun _ => ?_
  refine shadows_bind (shadows_refl _) fun _ => shadows_bind (shadows_refl _) fun _ => ?_
  exact shadows_bind (shadows_keywordBody hinner .kwFor _ _ bound) fun _ => shadows_refl _

theorem shadows_statement (bound : Nat) :
    (statement strict bound).Shadows (statement inner bound) := by
  unfold statement
  refine @shadows_bind _ _ _ _ _ _ (fun token => ?_) (shadows_refl _) fun token => ?_
  · split <;> infer_instance
  · split
    · exact shadows_bind (shadows_refl _) fun _ => shadows_bind (shadows_refl _) fun _ =>
        shadows_conditionalFrom hinner bound _
    · exact shadows_bind (shadows_refl _) fun _ => shadows_bind (shadows_refl _) fun _ =>
        shadows_loopFrom hinner bound _
    · exact shadows_bind (shadows_refl _) fun _ => shadows_bind (shadows_refl _) fun _ =>
        shadows_forLoopFrom hinner bound _
    · exact shadows_refl _
    · exact shadows_refl _
    · exact shadows_refl _

theorem shadows_codeBlock (bound : Nat) :
    (codeBlock strict bound).Shadows (codeBlock inner bound) := by
  have hbody := shadows_body hinner .kwCode "Expect 'END CODE' after block." bound
  refine shadows_bind (shadows_refl _) fun cursor => shadows_bind (shadows_refl _) fun _ => ?_
  refine shadows_bind (shadows_refl _) fun _ => shadows_ite ?_ ?_
  · exact shadows_bind (shadows_refl _) fun _ => shadows_bind hbody fun _ => shadows_refl _
  · exact shadows_bind (shadows_refl _) fun _ => shadows_bind hbody fun _ => shadows_refl _

theorem shadows_item (bound : Nat) : (item strict bound).Shadows (item inner bound) := by
  unfold item
  refine @shadows_bind _ _ _ _ _ _ (fun cursor => ?_) (shadows_refl _) fun cursor => ?_
  · split <;> infer_instance
  · split
    · exact shadows_refl _
    · refine shadows_ite (shadows_codeBlock hinner bound) ?_
      exact shadows_bind (shadows_statement hinner bound) fun _ => shadows_refl _

end Nested

theorem shadows_strictItem (bound : Nat) : (strictItem bound).Shadows (readItem bound) := by
  induction bound with
  | zero => exact shadows_refl _
  | succ bound ih => exact shadows_recovering (shadows_item ih (bound + 1))

end Stmt

namespace Program

theorem shadows_strictTopLevels (bound rounds : Nat) :
    (strictTopLevels bound rounds).Shadows (topLevels bound rounds) := by
  have htopLevel : (strictTopLevel bound).Shadows (topLevel bound) := by
    refine shadows_bind (shadows_refl _) fun cursor => shadows_ite ?_ (shadows_refl _)
    exact Stmt.shadows_codeBlock (Stmt.shadows_strictItem bound) bound
  induction rounds with
  | zero => exact shadows_refl _
  | succ rounds ih =>
      refine shadows_bind (shadows_refl _) fun cursor => shadows_ite (shadows_refl _) ?_
      exact shadows_bind (shadows_recovering htopLevel) fun _ =>
        shadows_bind ih fun _ => shadows_refl _

theorem shadows_strictRead : strictRead.Shadows read :=
  shadows_bind (shadows_refl _) fun _ =>
    shadows_bind (shadows_strictTopLevels _ _) fun _ => shadows_refl _

end Program

/-! ### What is recorded directly -/

/-- The errors that do not end a construct, on any line. -/
def Ledger.mild : Ledger where
  lines := Set.univ
  entries := { entry | ∃ error, entry = .grammatical error ∧ error.cause.aborts = false }
  recorded haborts _ := ⟨_, rfl, haborts⟩

namespace Program

theorem lined_strictRead {ledger : Ledger} :
    Reading.Lined ledger (Stmt.AllLined ledger.lines) strictRead := by
  have hitem (bound : Nat) :
      Reading.Lined ledger (Stmt.AllLined ledger.lines) (Stmt.strictItem bound) := by
    induction bound with
    | zero => exact upholds_pure trivial
    | succ bound ih => exact Stmt.lined_item ih (bound + 1)
  have htopLevel (bound : Nat) :
      Reading.Lined ledger (Stmt.AllLined ledger.lines) (strictTopLevel bound) :=
    upholds_get_bind fun _ _ =>
      upholds_ite (fun _ => Stmt.lined_codeBlock (hitem bound) bound) fun _ =>
        lined_fail fun _ => rfl
  have htopLevels (bound rounds : Nat) :
      Reading.Lined ledger (Stmt.AllLined ledger.lines) (strictTopLevels bound rounds) := by
    induction rounds with
    | zero => exact upholds_pure trivial
    | succ rounds ih =>
        refine upholds_get_bind fun _ _ => upholds_ite (fun _ => upholds_pure trivial) fun _ => ?_
        refine upholds_bind (htopLevel bound) fun _ hfirst => upholds_bind ih fun _ hrest => ?_
        exact upholds_pure (hfirst.append hrest)
  refine upholds_get_bind fun _ _ => upholds_bind (htopLevels _ _) fun _ hfound => ?_
  refine upholds_get_bind fun cursor hcursor => ?_
  refine upholds_ite (fun _ => ?_) fun _ => upholds_pure hfound
  exact upholds_bind (lined_report rfl hcursor.head) fun _ _ => upholds_pure hfound

end Program

namespace Program

/-- A first error that ends its construct is the one at which reading without recovery fails.
Nothing has been reported before, and reading stands at the token that the error describes. -/
theorem fails_strictRead {tokens : List Token} {error : SyntaxError}
    (hfirst : (parse tokens .empty).2.entries.head? = some (.grammatical error))
    (haborts : error.cause.aborts = true) :
    ∃ later, strictRead.Fails { rest := tokens } error later ∧
      SyntaxError.At error later.head := by
  obtain ⟨found, last, hread⟩ := exists_run_read { rest := tokens }
  have hparse : (parse tokens .empty).2 = last.report := by simp only [parse, hread]
  rw [hparse] at hfirst
  have hlined : Cursor.Lined Ledger.mild { rest := tokens } :=
    ⟨fun _ _ => trivial, .inl trivial, by simp⟩
  have hrun := lined_strictRead _ hlined
  have hmild {report : Report} (hmem : ∀ entry ∈ report.entries, entry ∈ Ledger.mild.entries) :
      report.entries.head? ≠ some (.grammatical error) := by
    intro hhead
    obtain ⟨other, hother, hcause⟩ := hmem _ (List.mem_of_head? hhead)
    cases hother
    exact Bool.false_ne_true (hcause.symm.trans haborts)
  rcases shadows_strictRead { rest := tokens } with hsame | ⟨thrown, later, hstrict, hrecorded⟩
  · rw [hsame, hread] at hrun
    exact absurd hfirst (hmild hrun.2.report)
  · rw [hstrict] at hrun
    rw [final_of_ok hread] at hrecorded
    obtain ⟨more, hmore⟩ := hrecorded
    rw [← hmore] at hfirst
    cases hentries : later.report.entries with
    | nil =>
        rw [hentries] at hfirst
        cases hfirst
        exact ⟨later, ⟨hstrict, congrArg Report.mk hentries⟩, hrun.1⟩
    | cons entry entries =>
        refine absurd ?_ (hmild hrun.2.report)
        rw [hentries] at hfirst ⊢
        exact hfirst

end Program

end BeginCode
