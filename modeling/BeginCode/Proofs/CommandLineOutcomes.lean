import BeginCode.CommandLine
import BeginCode.Proofs.DisplayTokens
import BeginCode.Proofs.Outcomes

/-!
# What the command line answers

The exit code says how far a script got: rejected before it ran, stopped by an error, or run to its
end. Standard output is what the script wrote. After a clean run a note follows, unless a display
statement stands somewhere in the program, whether it was executed or not.
-/

namespace BeginCode.CommandLine

open BeginCode.Program

/-- The statements of a script. -/
def statements (script : String) : List Stmt :=
  (parse (scan script).tokens (scan script).report).1

/-- Scanning a script reports an error, or parsing its tokens does. -/
def Rejected (script : String) : Prop :=
  (scan script).errors ≠ [] ∨
    (parse (scan script).tokens (scan script).report).2 ≠ (scan script).report

/-- How the statements of a script end. -/
def execution (bound : Nat) (script : String) (input : List UInt8) :
    EStateM.Result Stop World Unit :=
  (Stmt.execAll bound (statements script)).run { console := { unread := input } }

/-- A display statement stands in the script, at any depth. -/
def HasDisplay (script : String) : Prop :=
  ∃ statement ∈ statements script, ∃ value line, (Stmt.display value line).Within statement

/-- A response to running a script agrees with its program. -/
structure Response.Reflects (response : Response) (bound : Nat) (script : String)
    (input : List UInt8) : Prop where
  exit_rejected : response.exit = 65 ↔ Rejected script
  stdout_rejected : response.exit = 65 → response.stdout = []
  exit_stopped : response.exit = 70 ↔
    ¬Rejected script ∧ ∃ error world, execution bound script input = .error (.fault error) world
  stdout_stopped : ∀ error world, response.exit = 70 →
    execution bound script input = .error (.fault error) world →
      response.stdout = world.console.output
  exit_clean : response.exit = 0 ↔ response.exit ≠ 65 ∧ response.exit ≠ 70
  stdout_clean : response.exit = 0 → ∃ world, execution bound script input = .ok () world ∧
    (HasDisplay script → response.stdout = world.console.output) ∧
    (¬HasDisplay script →
      response.stdout = world.console.output ++ Console.utf8 "No error\n")

/-! ### Rejected scripts -/

theorem report_eq_empty_iff {script : String} :
    (scan script).report = .empty ↔ (scan script).errors = [] := by
  simp [Scan.report, Report.empty]

/-- Parsing only adds to the report of the scan. -/
theorem rejected_iff {script : String} :
    Rejected script ↔ (parse (scan script).tokens (scan script).report).2 ≠ .empty := by
  constructor
  · intro hrejected hempty
    have hscanned := report_eq_empty_of_parse hempty
    rcases hrejected with herrors | hparsed
    · exact herrors (report_eq_empty_iff.mp hscanned)
    · exact hparsed (hempty.trans hscanned.symm)
  · intro hreported
    by_cases hscanned : (scan script).report = .empty
    · exact .inr fun hparsed => hreported (hparsed.trans hscanned)
    · exact .inl fun herrors => hscanned (report_eq_empty_iff.mpr herrors)

theorem hasStaticError_iff {script : String} :
    (parse (scan script).tokens (scan script).report).2.hasStaticError = true ↔
      Rejected script := by
  rw [rejected_iff]
  constructor
  · intro hstatic hempty
    rw [hempty] at hstatic
    cases hstatic
  · intro hreported
    by_contra hnone
    have hkept (error : SyntaxError) (hline : error.line ∈ (scan script).ledger.lines) :
        .grammatical error ∈ (scan script).ledger.entries := ⟨rfl, hline⟩
    have hentries := (lined_parse hkept (lined_scan script)).2
    apply hreported
    exact eq_empty_of_not_hasStaticError (fun entry hmem => (hentries entry hmem).1) hnone

/-- The tokens of an accepted script are read without a report. -/
theorem parse_of_accepted {script : String} (haccepted : ¬Rejected script) :
    (scan script).report = .empty ∧ (parse (scan script).tokens .empty).2 = .empty := by
  rw [rejected_iff, not_not] at haccepted
  have hscanned := report_eq_empty_of_parse haccepted
  rw [hscanned] at haccepted
  exact ⟨hscanned, haccepted⟩

/-! ### The closing note -/

theorem mentions_eq_true_iff {script : String} :
    mentions .kwDisplay script = true ↔ Token.displayLines (scan script).tokens ≠ [] := by
  simp [mentions, Token.displayLines]

/-- In an accepted script the keyword stands for a statement. -/
theorem mentions_iff {script : String} (haccepted : ¬Rejected script) :
    mentions .kwDisplay script = true ↔ HasDisplay script := by
  obtain ⟨hscanned, hparsed⟩ := parse_of_accepted haccepted
  obtain ⟨statement, hstatements, hlines⟩ := displayLines_parse hparsed
  have hdisplay : HasDisplay script ↔ ∃ value line, (Stmt.display value line).Within statement := by
    rw [HasDisplay, statements, hscanned, hstatements]
    simp only [List.mem_singleton, exists_eq_left]
  rw [mentions_eq_true_iff, ← hlines, hdisplay]
  constructor
  · intro hsome
    obtain ⟨line, hline⟩ := List.exists_mem_of_ne_nil _ hsome
    obtain ⟨value, hwithin⟩ := Stmt.mem_displayLines.mp hline
    exact ⟨value, line, hwithin⟩
  · rintro ⟨value, line, hwithin⟩
    exact List.ne_nil_of_mem (Stmt.mem_displayLines.mpr ⟨value, hwithin⟩)

/-! ### Running a script -/

theorem execute_of_rejected {script : String} (hrejected : Rejected script) (bound : Nat)
    (input : List UInt8) :
    ∃ message, execute bound script input = some (.failure 65 [] message) := by
  have hstatic := hasStaticError_iff.mpr hrejected
  have hsome : (parse (scan script).tokens (scan script).report).2.isEmpty = false := by
    obtain ⟨entry, hmem, -⟩ := List.any_eq_true.mp hstatic
    exact List.isEmpty_eq_false_iff.mpr (List.ne_nil_of_mem hmem)
  have hrun : Program.run bound script { unread := input } =
      some ⟨(parse (scan script).tokens (scan script).report).2, { unread := input }⟩ := by
    simp only [Program.run, hstatic, if_true]
  refine ⟨(parse (scan script).tokens (scan script).report).2.text, ?_⟩
  rw [execute, hrun, Option.bind_eq_bind, Option.bind_some, if_neg (by simp [hsome]),
    if_pos hstatic]
  rfl

/-- An accepted script is answered as its execution ends. -/
theorem execute_of_accepted {script : String} (haccepted : ¬Rejected script) (bound : Nat)
    (input : List UInt8) :
    execute bound script input =
      match execution bound script input with
      | .ok () world =>
          some (.success (world.console.output ++ Console.utf8 (closingNote script)))
      | .error (.fault error) world =>
          some (.failure 70 world.console.output (Report.empty.add (.runtime error)).text)
      | .error .outOfRounds _ => none := by
  have hrun : Program.run bound script { unread := input } =
      Program.execute bound (statements script) { unread := input } := by
    simp only [Program.run, mt hasStaticError_iff.mp haccepted]
    rfl
  rw [execute, hrun, Program.execute, execution]
  cases (Stmt.execAll bound (statements script)).run { console := { unread := input } } with
  | ok result world => rfl
  | error stop world => cases stop <;> rfl

theorem run_eq_none_of_execute {bound : Nat} {script : String} {input : List UInt8}
    (hnone : execute bound script input = none) :
    Program.run bound script { unread := input } = none := by
  rw [execute] at hnone
  cases hrun : Program.run bound script { unread := input } with
  | none => rfl
  | some found =>
      rw [hrun, Option.bind_eq_bind, Option.bind_some] at hnone
      split at hnone
      · cases hnone
      · split at hnone <;> cases hnone

theorem reflects_rejected {script : String} (hrejected : Rejected script) (bound : Nat)
    (input : List UInt8) (message : String) :
    (Response.failure 65 [] message).Reflects bound script input where
  exit_rejected := iff_of_true rfl hrejected
  stdout_rejected _ := rfl
  exit_stopped := iff_of_false (show 65 ≠ 70 by decide) fun hstopped => hstopped.1 hrejected
  stdout_stopped _ _ hexit := absurd hexit (show 65 ≠ 70 by decide)
  exit_clean := iff_of_false (show 65 ≠ 0 by decide) fun hclean => hclean.1 rfl
  stdout_clean hexit := absurd hexit (show 65 ≠ 0 by decide)

theorem reflects_stopped {script : String} (haccepted : ¬Rejected script) {bound : Nat}
    {input : List UInt8} {error : RuntimeError} {world : World}
    (hexecution : execution bound script input = .error (.fault error) world) (message : String) :
    (Response.failure 70 world.console.output message).Reflects bound script input where
  exit_rejected := iff_of_false (show 70 ≠ 65 by decide) haccepted
  stdout_rejected hexit := absurd hexit (show 70 ≠ 65 by decide)
  exit_stopped := iff_of_true rfl ⟨haccepted, error, world, hexecution⟩
  stdout_stopped _ _ _ hsame := by
    rw [hexecution] at hsame
    cases hsame
    rfl
  exit_clean := iff_of_false (show 70 ≠ 0 by decide) fun hclean => hclean.2 rfl
  stdout_clean hexit := absurd hexit (show 70 ≠ 0 by decide)

theorem reflects_clean {script : String} (haccepted : ¬Rejected script) {bound : Nat}
    {input : List UInt8} {world : World}
    (hexecution : execution bound script input = .ok () world) :
    (Response.success (world.console.output ++ Console.utf8 (closingNote script))).Reflects
      bound script input where
  exit_rejected := iff_of_false (show 0 ≠ 65 by decide) haccepted
  stdout_rejected hexit := absurd hexit (show 0 ≠ 65 by decide)
  exit_stopped := by
    refine iff_of_false (show 0 ≠ 70 by decide) ?_
    rintro ⟨-, error, stopped, hsame⟩
    rw [hexecution] at hsame
    cases hsame
  stdout_stopped _ _ hexit := absurd hexit (show 0 ≠ 70 by decide)
  exit_clean := iff_of_true rfl ⟨show 0 ≠ 65 by decide, show 0 ≠ 70 by decide⟩
  stdout_clean _ := by
    refine ⟨world, hexecution, fun hdisplay => ?_, fun hsilent => ?_⟩
    · rw [closingNote, if_pos ((mentions_iff haccepted).mpr hdisplay)]
      exact List.append_nil _
    · rw [closingNote, if_neg (mt (mentions_iff haccepted).mp hsilent)]
      rfl

/-- A request to run a script that ends is answered with a response that agrees with its program. -/
theorem answer_reflects {bound : Nat} {file : String → Option (List UInt8)} {input : List UInt8}
    {options : Options} {script : String} (htokens : options.tokens = false)
    (hscript : options.script? file = some script)
    (hends : Program.run bound script { unread := input } ≠ none) :
    ∃ response, answer bound file input (.execute options) = some response ∧
      response.Reflects bound script input := by
  have hexecute : answer bound file input (.execute options) = execute bound script input := by
    simp only [answer, hscript, htokens, Bool.false_eq_true, if_false]
  have hanswer : execute bound script input ≠ none := mt run_eq_none_of_execute hends
  rw [hexecute]
  by_cases hrejected : Rejected script
  · obtain ⟨message, hexecute⟩ := execute_of_rejected hrejected bound input
    exact ⟨_, hexecute, reflects_rejected hrejected bound input message⟩
  · rw [execute_of_accepted hrejected] at hanswer ⊢
    cases hexecution : execution bound script input with
    | ok result world => exact ⟨_, rfl, reflects_clean hrejected hexecution⟩
    | error stop world =>
        cases stop with
        | fault error => exact ⟨_, rfl, reflects_stopped hrejected hexecution _⟩
        | outOfRounds =>
            rw [hexecution] at hanswer
            exact absurd rfl hanswer

/-- The keyword stands in a comment, in a text and in a branch that is not taken. -/
def guarded : String :=
  "BEGIN CODE\nSTRING s = \"DISPLAY\" # DISPLAY\n" ++
    "IF (s == NIL)\nBEGIN IF\nDISPLAY: s\nEND IF\nEND CODE"

theorem answer_reflects_guarded :
    ∃ response, answer 1 (fun _ => none) [] (.execute { contents := guarded }) = some response ∧
      response.Reflects 1 guarded [] ∧ response.exit = 0 ∧ response.stdout = [] ∧
      HasDisplay guarded := by
  have hends : Program.run 1 guarded { unread := [] } ≠ none := by
    have hsome : (Program.run 1 guarded { unread := [] }).isSome = true := by decide +kernel
    exact Option.isSome_iff_ne_none.mp hsome
  have hanswer : (answer 1 (fun _ => none) [] (.execute { contents := guarded })).map
      (fun response => (response.exit, response.stdout)) = some (0, []) := by
    decide +kernel
  obtain ⟨response, hresponse, hreflects⟩ :=
    @answer_reflects 1 (fun _ => none) [] { contents := guarded } guarded rfl rfl hends
  rw [hresponse] at hanswer
  obtain ⟨hexit, hstdout⟩ := Prod.mk.inj (Option.some.inj hanswer)
  refine ⟨response, hresponse, hreflects, hexit, hstdout, ?_⟩
  by_contra hsilent
  obtain ⟨world, -, -, hnote⟩ := hreflects.stdout_clean hexit
  have hempty := (hnote hsilent).symm.trans hstdout
  exact absurd (List.append_eq_nil_iff.mp hempty).2 (by decide)

end BeginCode.CommandLine
