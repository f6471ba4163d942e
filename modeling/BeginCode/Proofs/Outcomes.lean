import BeginCode.Proofs.LineOrigins
import Mathlib.Order.Interval.Set.Defs

/-!
# Outcomes

A run that ends has one of three outcomes: it completes without an error, its source is refused with
errors from before execution and nothing has happened on the console, or an accepted program is
stopped by a single error. Every error has a line between one and the line on which the source ends.
-/

namespace BeginCode

/-! ### Lines of pieces -/

/-- The line of a token or an error. -/
def Piece.line? : Piece → Option Nat
  | .token found => some found.line
  | .skipped _ => none
  | .rejected _ error => some error.line

namespace Source

/-- A step that began on the given line gives its pieces lines from there on, up to its last. -/
structure Step.Spans (line : Nat) (step : Step) : Prop where
  line_le : line ≤ step.line
  pieces : ∀ piece ∈ step.pieces, ∀ found ∈ piece.line?, line ≤ found ∧ found ≤ step.line

variable {line : Nat} {rest : List Char}

theorem spans_single {piece : Piece} {start : Nat}
    (hpiece : ∀ found ∈ piece.line?, start ≤ found ∧ found ≤ line) (hle : start ≤ line) :
    Step.Spans start ⟨[piece], line, rest⟩ := by
  refine ⟨hle, fun one hmem => ?_⟩
  rw [List.mem_singleton.mp hmem]
  exact hpiece

/-- A step with one piece stays on its line. -/
theorem spans_of_line {piece : Piece} (hpiece : piece.line? = some line) :
    Step.Spans line ⟨[piece], line, rest⟩ := by
  refine spans_single (fun found hfound => ?_) le_rfl
  rw [hpiece] at hfound
  obtain rfl := Option.mem_some_iff.mp hfound
  exact ⟨le_rfl, le_rfl⟩

theorem spans_number (first : Char) : (number line first rest).Spans line := by
  have hinteger (digits : List Char) : (integerPiece digits line).line? = some line := by
    unfold integerPiece
    split <;> rfl
  simp only [number]
  split
  · split
    · exact spans_of_line (hinteger _)
    · exact spans_of_line rfl
  · exact spans_of_line (hinteger _)

theorem spans_symbol (first : Char) : (symbol line first rest).Spans line := by
  have hsymbol : (symbolPiece first line).line? = some line := by
    unfold symbolPiece
    split <;> rfl
  cases rest with
  | nil => exact spans_of_line hsymbol
  | cons second rest =>
      simp only [symbol]
      split
      · exact spans_of_line rfl
      · exact spans_of_line hsymbol

theorem spans_character : (character line rest).Spans line := by
  simp only [character]
  split
  · split
    · exact spans_of_line rfl
    · exact spans_of_line rfl
  · exact spans_of_line rfl

theorem spans_bracket : (bracket line rest).Spans line := by
  unfold bracket
  split
  · split
    · exact spans_of_line rfl
    · exact spans_of_line rfl
  · exact spans_of_line rfl
  · exact spans_of_line rfl

theorem line?_lastSegment (lead content : List Char) (line : Nat) :
    (lastSegment lead content line).line? = some line := by
  simp only [lastSegment]
  split
  · rfl
  split
  · rfl
  · rfl

theorem line?_segment {lead content : List Char} {piece : Piece}
    (hmem : piece ∈ segment lead content line) : piece.line? = some line := by
  unfold segment at hmem
  split at hmem
  · cases hmem
  · rw [List.mem_singleton.mp hmem]
    rfl

/-- The lines of an open literal run from the one on which its open segment began. -/
theorem spans_quoted {lead content : List Char} {start : Nat} (hstart : start ≤ line) :
    (quoted lead content start line rest).Spans start := by
  fun_induction quoted lead content start line rest with
  | case1 lead content start line =>
      refine spans_single (fun found hfound => ?_) hstart
      obtain rfl : line = found := Option.mem_some_iff.mp hfound
      exact ⟨hstart, le_rfl⟩
  | case2 lead content start line rest =>
      refine spans_single (fun found hfound => ?_) hstart
      rw [line?_lastSegment] at hfound
      obtain rfl := Option.mem_some_iff.mp hfound
      exact ⟨le_rfl, hstart⟩
  | case3 lead content start line rest ih =>
      obtain ⟨hle, hpieces⟩ := ih le_rfl
      have hlast : line + 1 ≤ ((quoted [] [] (line + 1) (line + 1) rest).prepend
          (segment lead content.reverse start ++ [.plain .lineBreak ['$'] line])).line := hle
      refine ⟨by omega, fun piece hmem found hfound => ?_⟩
      rcases List.mem_append.mp hmem with hmem | hmem
      · rcases List.mem_append.mp hmem with hmem | hmem
        · rw [line?_segment hmem] at hfound
          obtain rfl := Option.mem_some_iff.mp hfound
          exact ⟨le_rfl, by omega⟩
        · rw [List.mem_singleton.mp hmem] at hfound
          obtain rfl : line = found := Option.mem_some_iff.mp hfound
          exact ⟨hstart, by omega⟩
      · obtain ⟨hfrom, hto⟩ := hpieces piece hmem found hfound
        exact ⟨by omega, hto⟩
  | case4 lead content start line rest ih => exact ih (by omega)
  | case5 lead content start line c rest _ _ _ ih => exact ih hstart

theorem spans_step (line : Nat) (first : Char) (rest : List Char) :
    (step line first rest).Spans line := by
  have hskipped (text : List Char) (after : Nat) (left : List Char) (hle : line ≤ after) :
      Step.Spans line ⟨[.skipped text], after, left⟩ :=
    spans_single (fun _ hfound => by cases hfound) hle
  unfold step
  split
  · exact hskipped _ _ _ (Nat.le_succ line)
  split
  · refine spans_single (fun found hfound => ?_) (Nat.le_succ line)
    obtain rfl : line = found := Option.mem_some_iff.mp hfound
    exact ⟨le_rfl, Nat.le_succ line⟩
  split
  · exact hskipped _ _ _ le_rfl
  split
  · exact spans_quoted le_rfl
  split
  · exact spans_character
  split
  · exact spans_bracket
  split
  · exact hskipped _ _ _ le_rfl
  split
  · exact spans_number first
  split
  · exact spans_of_line rfl
  · exact spans_symbol first

/-- From the first line on, no piece lies outside the lines of the source. -/
theorem spans_pieces (line : Nat) (source : List Char) :
    line ≤ (pieces line source).2 ∧
      ∀ piece ∈ (pieces line source).1, ∀ found ∈ piece.line?,
        line ≤ found ∧ found ≤ (pieces line source).2 := by
  fun_induction pieces line source with
  | case1 line => exact ⟨le_rfl, by simp⟩
  | case2 line first rest found after ih =>
      obtain ⟨hafter, hlater⟩ := ih
      obtain ⟨hle, hpieces⟩ := spans_step line first rest
      refine ⟨hle.trans hafter, fun piece hmem place hplace => ?_⟩
      rcases List.mem_append.mp hmem with hmem | hmem
      · obtain ⟨hfrom, hto⟩ := hpieces piece hmem place hplace
        exact ⟨hfrom, hto.trans hafter⟩
      · obtain ⟨hfrom, hto⟩ := hlater piece hmem place hplace
        exact ⟨hle.trans hfrom, hto⟩

end Source

/-- The lines of a source, and the errors from before execution on these lines. -/
def Scan.ledger (scan : Scan) : Ledger where
  lines := Set.Icc 1 scan.lastLine
  entries := { entry | entry.isStatic = true ∧ entry.line ∈ Set.Icc 1 scan.lastLine }
  recorded _ hline := ⟨rfl, hline⟩

/-- What scanning hands on has lines of the source. -/
theorem lined_scan (source : String) :
    ({ rest := (scan source).tokens, report := (scan source).report } : Cursor).Lined
      (scan source).ledger := by
  obtain ⟨hlast, hpieces⟩ := Source.spans_pieces 1 source.toList
  refine ⟨fun token hmem => ?_, ?_, fun entry hmem => ?_⟩
  · rcases List.mem_append.mp hmem with hmem | hmem
    · obtain ⟨piece, hpiece, htoken⟩ := List.mem_filterMap.mp hmem
      refine hpieces piece hpiece token.line ?_
      cases piece <;> cases htoken
      rfl
    · rw [List.mem_singleton.mp hmem]
      exact ⟨hlast, le_rfl⟩
  · exact .inr ⟨_, List.mem_append_right _ (List.mem_singleton_self _), rfl⟩
  · obtain ⟨error, hfound, rfl⟩ := List.mem_map.mp hmem
    obtain ⟨piece, hpiece, herror⟩ := List.mem_filterMap.mp hfound
    refine ⟨rfl, hpieces piece hpiece error.line ?_⟩
    cases piece <;> cases herror
    rfl

/-! ### Outcomes of a run -/

namespace Program

/-- The run has ended without an error. -/
def Run.Completes (found : Run) : Prop := found.report = .empty

/-- The source had errors, and nothing was done on the console. -/
structure Run.Refuses (found : Run) (console : Console) : Prop where
  entries_ne_nil : found.report.entries ≠ []
  isStatic : ∀ entry ∈ found.report.entries, entry.isStatic = true
  console_eq : found.console = console

/-- One error has stopped a program in whose source there was none. -/
structure Run.Stops (found : Run) (source : String) : Prop where
  entries : ∃ error, found.report.entries = [.runtime error]
  scan_report : (scan source).report = .empty
  parse_report : (parse (scan source).tokens .empty).2 = .empty

namespace Run

variable {found : Run} {console : Console} {source : String}

theorem Refuses.not_completes (hrefuses : found.Refuses console) : ¬found.Completes := by
  intro hcompletes
  exact hrefuses.entries_ne_nil (by rw [hcompletes, Report.entries_empty])

theorem Stops.not_completes (hstops : found.Stops source) : ¬found.Completes := by
  obtain ⟨error, hentries⟩ := hstops.entries
  intro hcompletes
  rw [hcompletes, Report.entries_empty] at hentries
  cases hentries

theorem Stops.not_refuses (hstops : found.Stops source) : ¬found.Refuses console := by
  obtain ⟨error, hentries⟩ := hstops.entries
  intro hrefuses
  have hstatic := hrefuses.isStatic (.runtime error) (by simp [hentries])
  cases hstatic

end Run

theorem execute_lined {lines : Set Nat} {bound : Nat} {statements : List Stmt} {console : Console}
    {found : Run} (hlined : Stmt.AllLined lines statements)
    (hexecute : execute bound statements console = some found) :
    found.report = .empty ∨
      ∃ error, found.report.entries = [.runtime error] ∧ error.line ∈ lines := by
  have hrun := Stmt.lined_execAll bound hlined { console } trivial
  unfold execute at hexecute
  cases houtcome : (Stmt.execAll bound statements).run { console } with
  | ok result world =>
      rw [houtcome] at hexecute
      cases hexecute
      exact .inl rfl
  | error stop world =>
      rw [houtcome] at hexecute hrun
      cases stop with
      | outOfRounds => cases hexecute
      | fault error =>
          cases hexecute
          exact .inr ⟨error, rfl, hrun.1⟩

theorem eq_empty_of_not_hasStaticError {report : Report}
    (hstatic : ∀ entry ∈ report.entries, entry.isStatic = true)
    (hnone : ¬report.hasStaticError = true) : report = .empty := by
  have hentries : report.entries = [] := by
    rw [List.eq_nil_iff_forall_not_mem]
    intro entry hmem
    exact hnone (List.any_eq_true.mpr ⟨entry, hmem, hstatic entry hmem⟩)
  exact congrArg Report.mk hentries

/-- A run that ends either completes, or refuses its source before anything is done, or is stopped
by a single error of an accepted program. All reported lines are between one and the line of the end
of input. -/
theorem run_outcome {bound : Nat} {source : String} {input : List UInt8} {limit : Option Nat}
    {found : Run} (hrun : run bound source ⟨input, [], limit⟩ = some found) :
    ((found.Completes ∧ ¬found.Refuses ⟨input, [], limit⟩ ∧ ¬found.Stops source) ∨
      (¬found.Completes ∧ found.Refuses ⟨input, [], limit⟩ ∧ ¬found.Stops source) ∨
      (¬found.Completes ∧ ¬found.Refuses ⟨input, [], limit⟩ ∧ found.Stops source)) ∧
    ∃ last, (scan source).tokens.getLast? = some last ∧ last.kind = .endOfInput ∧
      ∀ entry ∈ found.report.entries, 1 ≤ entry.line ∧ entry.line ≤ last.line := by
  have hkept (error : SyntaxError) (hline : error.line ∈ (scan source).ledger.lines) :
      .grammatical error ∈ (scan source).ledger.entries := ⟨rfl, hline⟩
  obtain ⟨hstatements, hentries⟩ := lined_parse hkept (lined_scan source)
  have hlast : (scan source).tokens.getLast? =
      some ⟨.endOfInput, "", (scan source).lastLine, none⟩ := by
    rw [Scan.tokens, List.getLast?_concat]
  unfold run at hrun
  by_cases hstatic :
      (parse (scan source).tokens (scan source).report).2.hasStaticError = true
  · simp only [hstatic, if_true] at hrun
    cases hrun
    have hrefuses : (Run.mk (parse (scan source).tokens (scan source).report).2
        ⟨input, [], limit⟩).Refuses ⟨input, [], limit⟩ := by
      obtain ⟨entry, hmem, -⟩ := List.any_eq_true.mp hstatic
      exact ⟨List.ne_nil_of_mem hmem, fun entry hmem => (hentries entry hmem).1, rfl⟩
    refine ⟨.inr (.inl ⟨hrefuses.not_completes, hrefuses, fun hstops => ?_⟩),
      _, hlast, rfl, fun entry hmem => (hentries entry hmem).2⟩
    exact hstops.not_refuses hrefuses
  · simp only [hstatic, Bool.false_eq_true, if_false] at hrun
    have hempty :=
      eq_empty_of_not_hasStaticError (fun entry hmem => (hentries entry hmem).1) hstatic
    have hscan := report_eq_empty_of_parse hempty
    rcases execute_lined hstatements hrun with hreport | ⟨error, hreport, hline⟩
    · refine ⟨.inl ⟨hreport, fun hrefuses => hrefuses.not_completes hreport,
        fun hstops => hstops.not_completes hreport⟩, _, hlast, rfl, ?_⟩
      simp [hreport]
    · rw [hscan] at hempty
      have hstops : found.Stops source := ⟨⟨error, hreport⟩, hscan, hempty⟩
      refine ⟨.inr (.inr ⟨hstops.not_completes, hstops.not_refuses, hstops⟩), _, hlast, rfl, ?_⟩
      rw [hreport]
      intro entry hmem
      rw [List.mem_singleton.mp hmem]
      exact hline

/-- A division by zero on the last line but one; the line-break symbol counts as a line end. -/
def dividing : String := "BEGIN CODE\nDISPLAY: \"a$b\"\nDISPLAY: 1 / 0\nEND CODE"

theorem run_outcome_dividing :
    ∃ found, run 1 dividing ⟨[], [], none⟩ = some found ∧
      found.report.entries = [.runtime ⟨.divisionByZero, 4⟩] ∧ found.Stops dividing ∧
      ∃ last, (scan dividing).tokens.getLast? = some last ∧ 4 ≤ last.line := by
  have hreported : (run 1 dividing ⟨[], [], none⟩).map (fun found => found.report.entries) =
      some [.runtime ⟨.divisionByZero, 4⟩] := by
    decide +kernel
  obtain ⟨found, hrun, hentries⟩ := Option.map_eq_some_iff.mp hreported
  obtain ⟨houtcome, last, hlast, -, hlines⟩ := run_outcome hrun
  have hmem : .runtime ⟨.divisionByZero, 4⟩ ∈ found.report.entries := by simp [hentries]
  refine ⟨found, hrun, hentries, ?_, last, hlast, (hlines _ hmem).2⟩
  rcases houtcome with ⟨hcompletes, -⟩ | ⟨-, hrefuses, -⟩ | ⟨-, -, hstops⟩
  · rw [hcompletes] at hentries
    cases hentries
  · cases hrefuses.isStatic _ hmem
  · exact hstops

end Program

end BeginCode
