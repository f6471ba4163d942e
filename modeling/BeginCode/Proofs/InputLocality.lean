import BeginCode.Proofs.LimitedOutput
import Mathlib.Data.List.TakeWhile

/-!
# Input locality

A run that leaves input unread has seen nothing of it: with any other input left over it does the
same. What it has consumed are whole lines, one for each `SCAN` that was executed, whether or not
that `SCAN` succeeded. At the end of input this fails, since there a line can be cut short.
-/

namespace BeginCode

/-! ### Lines of input -/

namespace Console

/-- A line with its line end. -/
def IsLine (bytes : List UInt8) : Prop := ∃ content, bytes = content ++ [10] ∧ 10 ∉ content

/-- If something is left after a line, the line is complete. -/
theorem isLine_takeLine {console : Console} (hleft : console.takeLine.2.unread ≠ []) :
    IsLine console.takeLine.1 := by
  have hcontent : 10 ∉ console.unread.takeWhile (· ≠ 10) := by
    intro hmem
    have := List.mem_takeWhile_imp hmem
    simp at this
  unfold takeLine at hleft ⊢
  split at hleft
  · exact absurd rfl hleft
  · rename_i lineEnd rest hrest
    have hhead := List.head?_dropWhile_not (· ≠ 10) console.unread
    rw [hrest] at hhead
    have hlineEnd : lineEnd = 10 := by simpa using hhead
    rw [hlineEnd]
    exact ⟨_, rfl, hcontent⟩

theorem takeLine_of_isLine {console : Console} {line rest : List UInt8} (hline : IsLine line) :
    ({ console with unread := line ++ rest } : Console).takeLine =
      (line, { console with unread := rest }) := by
  obtain ⟨content, rfl, hcontent⟩ := hline
  have hkeep : ∀ byte ∈ content, decide (byte ≠ 10) = true := by
    intro byte hmem
    refine decide_eq_true fun heq => hcontent ?_
    rwa [← heq]
  have htake : (content ++ [10] ++ rest).takeWhile (· ≠ 10) = content := by
    rw [List.append_assoc, List.takeWhile_append_of_pos hkeep]
    simp
  have hdrop : (content ++ [10] ++ rest).dropWhile (· ≠ 10) = 10 :: rest := by
    rw [List.append_assoc, List.dropWhile_append_of_pos hkeep]
    simp
  unfold takeLine
  rw [htake, hdrop]

end Console

/-! ### Computations -/

/-- A `SCAN` is executed. -/
def Event.scans : Event → Bool
  | execute (.scan _ _) => true
  | _ => false

/-- How many `SCAN` statements are executed. -/
def Moment.scanCount (moments : List Moment) : Nat :=
  moments.countP fun moment => moment.event.scans

theorem Moment.scanCount_append (moments : List Moment) (place : Place) {event : Event}
    (environment : Environment) (hevent : event.scans = false) :
    scanCount (moments ++ [⟨place, event, environment⟩]) = scanCount moments := by
  rw [scanCount, List.countP_append, List.countP_singleton, if_neg (by simpa using hevent)]
  rfl

/-- The same trace with other input left to read. -/
def Trace.withUnread (trace : Trace) (unread : List UInt8) : Trace :=
  { trace with world.console.unread := unread }

namespace Traced

variable {α β : Type}

/-- The same outcome with other input left to read. -/
def leaving (unread : List UInt8) : EStateM.Result Stop Trace α → EStateM.Result Stop Trace α
  | .ok result trace => .ok result (trace.withUnread unread)
  | .error stop trace => .error stop (trace.withUnread unread)

/-- From the trace, the computation consumes these lines, one for each `SCAN`, and does not depend
on what comes after them. -/
structure Consumes (traced : Traced α) (trace : Trace) (lines : List (List UInt8)) : Prop where
  unread : trace.world.console.unread =
    lines.flatten ++ (last (traced.run trace)).world.console.unread
  complete : ∀ line ∈ lines, Console.IsLine line
  scans : Moment.scanCount (last (traced.run trace)).moments =
    Moment.scanCount trace.moments + lines.length
  again (other : List UInt8) :
    traced.run (trace.withUnread (lines.flatten ++ other)) = leaving other (traced.run trace)

/-- As long as input is left, the computation consumes whole lines and sees nothing else. -/
def Local (traced : Traced α) : Prop :=
  ∀ trace, (last (traced.run trace)).world.console.unread ≠ [] →
    ∃ lines, traced.Consumes trace lines

/-- A computation that does not touch the input. -/
theorem local_of_untouched {traced : Traced α}
    (hunread : ∀ trace, (last (traced.run trace)).world.console.unread =
      trace.world.console.unread)
    (hscans : ∀ trace, Moment.scanCount (last (traced.run trace)).moments =
      Moment.scanCount trace.moments)
    (hagain : ∀ trace other, traced.run (trace.withUnread other) =
      leaving other (traced.run trace)) : traced.Local :=
  fun trace _ => ⟨[], (hunread trace).symm, by simp, hscans trace, fun other => hagain trace other⟩

theorem local_pure (result : α) : Local (pure result) :=
  local_of_untouched (fun _ => rfl) (fun _ => rfl) fun _ _ => rfl

theorem local_throw (stop : Stop) : Local (throw stop : Traced α) :=
  local_of_untouched (fun _ => rfl) (fun _ => rfl) fun _ _ => rfl

theorem local_bind {first : Traced α} {next : α → Traced β} (hfirst : first.Local)
    (hnext : ∀ result, (next result).Local) : (first >>= next).Local := by
  intro trace hleft
  cases hrun : first.run trace with
  | error stop later =>
      have hwhole : (first >>= next).run trace = .error stop later := by
        rw [EStateM.run_bind, hrun]
      rw [hwhole] at hleft
      obtain ⟨lines, hunread, hcomplete, hscans, hagain⟩ := hfirst trace (by rwa [hrun])
      rw [hrun] at hunread hscans
      refine ⟨lines, by rwa [hwhole], hcomplete, by rwa [hwhole], fun other => ?_⟩
      rw [EStateM.run_bind, hagain, hrun, hwhole]
      rfl
  | ok result later =>
      have hwhole : (first >>= next).run trace = (next result).run later := by
        rw [EStateM.run_bind, hrun]
      rw [hwhole] at hleft
      obtain ⟨more, hmore⟩ := hnext result later hleft
      -- Input is left in the middle, because it is left at the end.
      have hmiddle : later.world.console.unread ≠ [] := by
        rw [hmore.unread]
        exact List.append_ne_nil_of_right_ne_nil _ hleft
      obtain ⟨lines, hlines⟩ := hfirst trace (by rwa [hrun])
      have hlast : last (first.run trace) = later := by rw [hrun]; rfl
      refine ⟨lines ++ more, ?_, ?_, ?_, fun other => ?_⟩
      · rw [hwhole, hlines.unread, hlast, hmore.unread, List.flatten_append, List.append_assoc]
      · intro line hmem
        rcases List.mem_append.mp hmem with hmem | hmem
        · exact hlines.complete line hmem
        · exact hmore.complete line hmem
      · have hscans := hlines.scans
        rw [hlast] at hscans
        rw [hwhole, hmore.scans, hscans, List.length_append]
        omega
      · rw [EStateM.run_bind, List.flatten_append, List.append_assoc, hlines.again, hrun, hwhole]
        exact hmore.again other

theorem local_ite {condition : Prop} [Decidable condition] {first second : Traced α}
    (hfirst : first.Local) (hsecond : second.Local) :
    (if condition then first else second).Local := by
  by_cases hcondition : condition
  · rwa [if_pos hcondition]
  · rwa [if_neg hcondition]

theorem local_note (place : Place) {event : Event} (hevent : event.scans = false) :
    (note place event).Local := by
  refine local_of_untouched (fun _ => rfl) (fun trace => ?_) fun _ _ => rfl
  exact Moment.scanCount_append trace.moments place _ hevent

theorem local_note_bind {place : Place} {event : Event} {next : Traced α}
    (hevent : event.scans = false) (hnext : next.Local) :
    (note place event >>= fun _ => next).Local :=
  local_bind (local_note place hevent) fun _ => hnext

theorem local_define (place : Place) (name : String) (binding : Binding) :
    (define place name binding).Local := by
  refine local_of_untouched (fun _ => rfl) (fun trace => ?_) fun _ _ => rfl
  exact Moment.scanCount_append trace.moments place _ rfl

theorem run_eval (eval : Eval α) (trace : Trace) :
    (lift (Exec.ofEval eval)).run trace =
      match eval.run trace.world.environment with
      | .ok result environment => .ok result { trace with world.environment := environment }
      | .error error environment =>
          .error (.fault error) { trace with world.environment := environment } := by
  rw [run_lift, Exec.run_ofEval]
  cases eval.run trace.world.environment <;> rfl

theorem local_eval (eval : Eval α) : (lift (Exec.ofEval eval)).Local := by
  have hsame : ∀ (trace : Trace) other,
      (trace.withUnread other).world.environment = trace.world.environment := fun _ _ => rfl
  refine local_of_untouched (fun trace => ?_) (fun trace => ?_) fun trace other => ?_
  · rw [run_eval]
    cases eval.run trace.world.environment <;> rfl
  · rw [run_eval]
    cases eval.run trace.world.environment <;> rfl
  · rw [run_eval, run_eval, hsame]
    cases eval.run trace.world.environment <;> rfl

theorem local_fault (cause : RuntimeCause) (line : Nat) :
    (lift (Exec.fault cause line) : Traced α).Local :=
  local_throw (.fault ⟨cause, line⟩)

theorem run_written (value : Value) (line : Nat) (trace : Trace) :
    (lift (Exec.display value line)).run trace =
      match trace.world.console.write (Console.utf8 (value.display ++ "\n")) with
      | (true, console) => .ok () { trace with world.console := console }
      | (false, console) => .error (overrunAt line) { trace with world.console := console } := by
  rw [run_lift, Exec.run_display]
  cases trace.world.console.write (Console.utf8 (value.display ++ "\n")) with
  | mk complete console => cases complete <;> rfl

theorem local_display (value : Value) (line : Nat) : (lift (Exec.display value line)).Local := by
  refine local_of_untouched (fun trace => ?_) (fun trace => ?_) fun trace other => ?_
  · have hunread := trace.world.console.unread_write (Console.utf8 (value.display ++ "\n"))
    rw [run_written]
    generalize trace.world.console.write _ = written at hunread ⊢
    obtain ⟨complete, console⟩ := written
    cases complete with
    | true => exact hunread
    | false => exact hunread
  · rw [run_written]
    generalize trace.world.console.write _ = written
    obtain ⟨complete, console⟩ := written
    cases complete <;> rfl
  · have hwrite : ∀ (console : Console) bytes,
        ({ console with unread := other } : Console).write bytes =
          ((console.write bytes).1, { (console.write bytes).2 with unread := other }) := by
      intro console bytes
      unfold Console.write
      cases console.room <;> rfl
    have hconsole : (trace.withUnread other).world.console =
        { trace.world.console with unread := other } := rfl
    rw [run_written, run_written, hconsole, hwrite]
    generalize trace.world.console.write _ = written
    obtain ⟨complete, console⟩ := written
    cases complete <;> rfl

theorem local_inScope {body : Traced α} (hbody : body.Local) (place : Place) :
    (inScope place body).Local := by
  intro trace hleft
  have hconsole : (last ((inScope place body).run trace)).world.console =
      (last (body.run (trace.change place .push Environment.push))).world.console := by
    rw [run_inScope]
    cases body.run (trace.change place .push Environment.push) <;> rfl
  have hmoments : Moment.scanCount (last ((inScope place body).run trace)).moments =
      Moment.scanCount (last (body.run (trace.change place .push Environment.push))).moments := by
    rw [run_inScope]
    cases body.run (trace.change place .push Environment.push) with
    | ok result later => exact Moment.scanCount_append later.moments place _ rfl
    | error stop later => exact Moment.scanCount_append later.moments place _ rfl
  rw [hconsole] at hleft
  obtain ⟨lines, hlines⟩ := hbody (trace.change place .push Environment.push) hleft
  refine ⟨lines, ?_, hlines.complete, ?_, fun other => ?_⟩
  · rw [hconsole]
    exact hlines.unread
  · rw [hmoments, hlines.scans, Trace.moments_change, Moment.scanCount_append _ _ _ rfl]
  · have hagain := hlines.again other
    have hpushed : (trace.withUnread (lines.flatten ++ other)).change place .push
        Environment.push =
          (trace.change place .push Environment.push).withUnread (lines.flatten ++ other) := rfl
    rw [run_inScope, run_inScope, hpushed, hagain]
    cases body.run (trace.change place .push Environment.push) <;> rfl

theorem local_assign (place : Place) (name : Token) (value : Value) :
    (assign place name value).Local :=
  local_bind (local_eval _) fun _ => local_note place rfl

theorem local_assignFields (place : Place) (line : Nat) (pairs : List (Token × List Char)) :
    (assignFields place line pairs).Local := by
  induction pairs with
  | nil => exact local_pure ()
  | cons pair rest ih =>
      refine local_bind ?_ fun _ => ih
      exact local_bind (local_eval _) fun _ =>
        local_ite (local_assign place pair.1 _) (local_fault _ line)

/-- What a `SCAN` does with its line touches no more input, whether it succeeds or fails. -/
theorem local_scanned (place : Place) (targets : List Token) (line : Nat) (bytes : List UInt8) :
    Local (match Console.decode? bytes with
      | none => lift (Exec.fault (.inputOutput "stream did not contain valid UTF-8") line)
      | some text =>
          if (Text.fields text.toList).length = targets.length then
            assignFields place line (targets.zip (Text.fields text.toList))
          else
            lift (Exec.fault
              (.scanFieldCount targets.length (Text.fields text.toList).length) line)) := by
  cases Console.decode? bytes with
  | none => exact local_fault _ line
  | some text => exact local_ite (local_assignFields place line _) (local_fault _ line)

/-- The part of a `SCAN` that takes its line. -/
theorem local_takeLine (place : Place) (targets : List Token) (line : Nat) :
    (note place (.execute (.scan targets line)) >>= fun _ => lift Exec.takeLine).Local := by
  intro trace hleft
  have hrun : ∀ trace : Trace, (note place (.execute (.scan targets line)) >>= fun _ =>
      lift Exec.takeLine).run trace = .ok trace.world.console.takeLine.1
        { trace.note place (.execute (.scan targets line)) with
          world.console := trace.world.console.takeLine.2 } := fun _ => rfl
  rw [hrun] at hleft
  have hline := Console.isLine_takeLine hleft
  refine ⟨[trace.world.console.takeLine.1], ?_, ?_, ?_, fun other => ?_⟩
  · rw [hrun, List.flatten_singleton]
    exact trace.world.console.takeLine_append.symm
  · intro line hmem
    rwa [List.mem_singleton.mp hmem]
  · rw [hrun]
    exact List.countP_append.trans rfl
  · have htake : ({ trace.world.console with
          unread := trace.world.console.takeLine.1 ++ other } : Console).takeLine =
        (trace.world.console.takeLine.1, { trace.world.console with unread := other }) :=
      Console.takeLine_of_isLine hline
    have hconsole : (trace.withUnread
        ([trace.world.console.takeLine.1].flatten ++ other)).world.console =
          { trace.world.console with unread := trace.world.console.takeLine.1 ++ other } := by
      rw [List.flatten_singleton]
      rfl
    obtain ⟨hwritten, hroom⟩ := trace.world.console.takeLine_keeps
    have hafter : ({ trace.world.console with unread := other } : Console) =
        { trace.world.console.takeLine.2 with unread := other } := by
      rw [Console.mk.injEq]
      exact ⟨rfl, hwritten.symm, hroom.symm⟩
    rw [hrun, hrun, hconsole, htake, hafter]
    rfl

theorem local_scan (place : Place) (targets : List Token) (line : Nat) :
    (note place (.execute (.scan targets line)) >>= fun _ => scan place targets line).Local := by
  unfold scan
  rw [← bind_assoc]
  exact local_bind (local_takeLine place targets line) (local_scanned place targets line)

theorem local_repeatWhile {condition : Traced Value} {body : Traced Unit}
    (hcondition : condition.Local) (hbody : body.Local) (bound : Nat) :
    (repeatWhile condition body bound).Local := by
  induction bound with
  | zero => exact local_throw .outOfRounds
  | succ bound ih =>
      exact local_bind hcondition fun _ =>
        local_ite (local_bind hbody fun _ => ih) (local_pure ())

end Traced

theorem Expr.local_trace (expr : Expr) (place : Place) : (expr.trace place).Local := by
  induction expr generalizing place with
  | literal value _ => exact Traced.local_note_bind rfl (Traced.local_pure value)
  | grouping inner _ ih => exact Traced.local_note_bind rfl (ih _)
  | unary op operand line ih =>
      exact Traced.local_note_bind rfl (Traced.local_bind (ih _) fun _ => Traced.local_eval _)
  | binary op left right line ihLeft ihRight =>
      exact Traced.local_note_bind rfl (Traced.local_bind (ihLeft _) fun _ =>
        Traced.local_bind (ihRight _) fun _ => Traced.local_eval _)
  | logical op left right _ ihLeft ihRight =>
      exact Traced.local_note_bind rfl (Traced.local_bind (ihLeft _) fun _ =>
        Traced.local_ite (Traced.local_pure _) (ihRight _))
  | «variable» name =>
      exact Traced.local_note_bind rfl (Traced.local_bind (Traced.local_eval _) fun _ =>
        Traced.local_pure _)
  | assign name value ih =>
      exact Traced.local_note_bind rfl (Traced.local_bind (ih _) fun _ =>
        Traced.local_bind (Traced.local_assign _ _ _) fun _ => Traced.local_pure _)

namespace Traced

theorem local_declare (place : Place) (type : ValueType) (name : Token)
    (initializer : Option Expr) : (declare place type name initializer).Local := by
  cases initializer with
  | none => exact local_define _ _ _
  | some value =>
      exact local_bind (value.local_trace _) fun _ =>
        local_ite (local_define _ _ _) (local_fault _ _)

theorem local_assignAll (place : Place) (index : Nat) (pairs : List (Token × Option Expr)) :
    (assignAll place index pairs).Local := by
  induction pairs generalizing index with
  | nil => exact local_pure ()
  | cons pair rest ih =>
      obtain ⟨name, initializer⟩ := pair
      have hassigned : ∀ value : Value,
          (assign place name value >>= fun _ => assignAll place (index + 1) rest).Local :=
        fun value => local_bind (local_assign place name value) fun _ => ih _
      cases initializer with
      | none => exact local_bind (local_pure Value.nil) hassigned
      | some value => exact local_bind (value.local_trace _) hassigned

end Traced

mutual

theorem Stmt.local_trace (bound : Nat) (place : Place) :
    (statement : Stmt) → (statement.trace bound place).Local
  | .block body _ =>
      Traced.local_note_bind rfl
        (Traced.local_inScope (Stmt.local_traceAll bound place 0 body) place)
  | .expression expr _ =>
      Traced.local_note_bind rfl (Traced.local_bind (expr.local_trace _) fun _ =>
        Traced.local_pure ())
  | .conditional condition thenBranch elseBranch _ =>
      Traced.local_note_bind rfl (Traced.local_bind (condition.local_trace _) fun _ =>
        Traced.local_ite (Stmt.local_trace bound _ thenBranch)
          (Stmt.local_traceElse bound _ elseBranch))
  | .loop condition body _ =>
      Traced.local_note_bind rfl (Traced.local_repeatWhile (condition.local_trace _)
        (Stmt.local_trace bound _ body) bound)
  | .display value line =>
      Traced.local_note_bind rfl (Traced.local_bind (value.local_trace _) fun _ =>
        Traced.local_display _ line)
  | .scan targets line => Traced.local_scan place targets line
  | .declare type name initializer =>
      Traced.local_note_bind rfl (Traced.local_declare place type name initializer)
  | .assignAll names values _ =>
      Traced.local_note_bind rfl (Traced.local_assignAll place 0 (names.zip values))

theorem Stmt.local_traceElse (bound : Nat) (place : Place) :
    (branch : Option Stmt) → (Stmt.traceElse bound place branch).Local
  | none => Traced.local_pure ()
  | some branch => Stmt.local_trace bound place branch

theorem Stmt.local_traceAll (bound : Nat) (place : Place) (index : Nat) :
    (statements : List Stmt) → (Stmt.traceAll bound place index statements).Local
  | [] => Traced.local_pure ()
  | first :: rest =>
      Traced.local_bind (Stmt.local_trace bound _ first) fun _ =>
        Stmt.local_traceAll bound place (index + 1) rest

end

/-! ### Programs -/

namespace Program

/-- The moments of the run of a source; there are none if it has a lexical or syntax error. -/
def moments (bound : Nat) (source : String) (console : Console) : List Moment :=
  let scanned := scan source
  let (statements, report) := parse scanned.tokens scanned.report
  if report.hasStaticError then [] else (history bound statements console).moments

/-- The same run with other input left to read. -/
def Run.withUnread (run : Run) (unread : List UInt8) : Run :=
  { run with console.unread := unread }

theorem finished?_leaving (outcome : EStateM.Result Stop Trace Unit) (unread : List UInt8) :
    finished? (Traced.leaving unread outcome) = (finished? outcome).map (·.withUnread unread) := by
  cases outcome with
  | ok result trace => rfl
  | error stop trace => cases stop <;> rfl

theorem execute_local {bound : Nat} {statements : List Stmt} {console : Console} {found : Run}
    (hfound : execute bound statements console = some found) (hleft : found.console.unread ≠ []) :
    ∃ lines : List (List UInt8), console.unread = lines.flatten ++ found.console.unread ∧
      (∀ line ∈ lines, Console.IsLine line) ∧
      Moment.scanCount (history bound statements console).moments = lines.length ∧
      ∀ other, execute bound statements { console with unread := lines.flatten ++ other } =
        some (found.withUnread other) := by
  rw [execute_eq_finished?] at hfound
  have hconsole := console_finished? hfound
  rw [hconsole] at hleft
  obtain ⟨lines, hunread, hcomplete, hscans, hagain⟩ :=
    Stmt.local_traceAll bound [] 0 statements (.start console) hleft
  refine ⟨lines, ?_, hcomplete, ?_, fun other => ?_⟩
  · rw [hconsole]
    exact hunread
  · exact hscans.trans (Nat.zero_add _)
  · have hstart : Trace.start { console with unread := lines.flatten ++ other } =
        (Trace.start console).withUnread (lines.flatten ++ other) := rfl
    rw [execute_eq_finished?, hstart, hagain, finished?_leaving, hfound]
    rfl

/-- A run that leaves input unread has consumed one whole line for each executed `SCAN`, and with
any other input after these lines it reports the same, writes the same and leaves that input. -/
theorem run_local {bound : Nat} {source : String} {consumed rest : List UInt8}
    {limit : Option Nat} {found : Run}
    (hfound : run bound source ⟨consumed ++ rest, [], limit⟩ = some found)
    (hunread : found.console.unread = rest) (hrest : rest ≠ []) :
    (∃ lines : List (List UInt8), consumed = lines.flatten ∧
      (∀ line ∈ lines, Console.IsLine line) ∧
      Moment.scanCount (moments bound source ⟨consumed ++ rest, [], limit⟩) = lines.length) ∧
    ∀ other, ∃ again, run bound source ⟨consumed ++ other, [], limit⟩ = some again ∧
      again.report = found.report ∧ again.console.output = found.console.output ∧
      again.console.unread = other := by
  simp only [run] at hfound ⊢
  simp only [moments]
  by_cases hstatic : (parse (scan source).tokens (scan source).report).2.hasStaticError = true
  · rw [if_pos hstatic] at hfound ⊢
    cases hfound
    have hnothing : consumed = [] := List.append_left_eq_self.mp hunread
    subst hnothing
    refine ⟨⟨[], rfl, by simp, rfl⟩, fun other => ?_⟩
    rw [if_pos hstatic]
    exact ⟨_, rfl, rfl, rfl, rfl⟩
  · rw [if_neg hstatic] at hfound ⊢
    obtain ⟨lines, hlines, hcomplete, hscans, hagain⟩ :=
      execute_local hfound (by rwa [hunread])
    rw [hunread] at hlines
    obtain rfl : consumed = lines.flatten := List.append_cancel_right hlines
    refine ⟨⟨lines, rfl, hcomplete, hscans⟩, fun other => ?_⟩
    rw [if_neg hstatic]
    exact ⟨_, hagain other, rfl, rfl, rfl⟩

def mistyped : String := "BEGIN CODE INT x\nSCAN: x\nDISPLAY: x\nSCAN: x\nDISPLAY: x\nEND CODE"

/-- The second `SCAN` fails on its line, which is consumed all the same. -/
theorem run_local_mistyped :
    ∃ found again, run 1 mistyped ⟨Console.utf8 "7\nab\n" ++ [255], [], none⟩ = some found ∧
      found.console.unread = [255] ∧
      run 1 mistyped ⟨Console.utf8 "7\nab\n" ++ [], [], none⟩ = some again ∧
      again.report = found.report ∧ again.report ≠ .empty ∧
      again.console.output = Console.utf8 "7\n" ∧ again.console.unread = [] := by
  have hrun : (run 1 mistyped ⟨Console.utf8 "7\nab\n" ++ [255], [], none⟩).map
      (fun found => (found.report.size, found.console.output, found.console.unread)) =
        some (1, Console.utf8 "7\n", [255]) := by
    decide +kernel
  obtain ⟨found, hfound, hparts⟩ := Option.map_eq_some_iff.mp hrun
  simp only [Prod.mk.injEq] at hparts
  obtain ⟨hsize, houtput, hunread⟩ := hparts
  obtain ⟨-, hother⟩ := run_local hfound hunread (by decide)
  obtain ⟨again, hagain, hreport, hwritten, hleft⟩ := hother []
  refine ⟨found, again, hfound, hunread, hagain, hreport, fun hempty => ?_,
    hwritten.trans houtput, hleft⟩
  rw [← hreport, hempty] at hsize
  cases hsize

end Program

end BeginCode
