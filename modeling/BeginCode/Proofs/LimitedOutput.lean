import BeginCode.Proofs.Moments

/-!
# Limited output

A run whose output has limited room does what the run without a limit does, moment by moment, until
a `DISPLAY` writes past the limit. There it stops with the part that fits, and all it still does is
to leave the open scopes.
-/

namespace BeginCode

/-! ### Consoles -/

namespace Console

/-- The console with the room that is left of a limit on all that is written. -/
def capped (console : Console) (limit : Nat) : Console :=
  { console with room := some (limit - console.written.length) }

/-- The console after a write that fits. -/
def append (console : Console) (bytes : List UInt8) : Console :=
  { console with written := bytes.reverse ++ console.written }

theorem length_written_append (console : Console) (bytes : List UInt8) :
    (console.append bytes).written.length = console.written.length + bytes.length := by
  rw [append, List.length_append, List.length_reverse, Nat.add_comm]

theorem length_output (console : Console) : console.output.length = console.written.length :=
  List.length_reverse

theorem output_append (console : Console) (bytes : List UInt8) :
    (console.append bytes).output = console.output ++ bytes := by
  rw [output, append, List.reverse_append, List.reverse_reverse, output]

/-- Taking a line changes nothing on the side of the output. -/
theorem takeLine_keeps (console : Console) :
    console.takeLine.2.written = console.written ∧ console.takeLine.2.room = console.room := by
  unfold takeLine
  cases console.unread.dropWhile (· ≠ 10) with
  | nil => exact ⟨rfl, rfl⟩
  | cons lineEnd rest => exact ⟨rfl, rfl⟩

theorem takeLine_capped (console : Console) (limit : Nat) :
    (console.capped limit).takeLine = (console.takeLine.1, console.takeLine.2.capped limit) := by
  have hunread : (console.capped limit).unread = console.unread := rfl
  unfold takeLine
  rw [hunread]
  cases console.unread.dropWhile (· ≠ 10) with
  | nil => rfl
  | cons lineEnd rest => rfl

section Write

variable {console : Console} {bytes : List UInt8} {limit : Nat}

theorem write_of_room (hroom : console.room = none) :
    console.write bytes = (true, console.append bytes) := by
  rw [write, hroom, List.reverseAux_eq, append, hroom]

theorem write_capped (console : Console) (bytes : List UInt8) (limit : Nat) :
    (console.capped limit).write bytes =
      (decide (bytes.length ≤ limit - console.written.length),
        { console with
          written := (bytes.take (limit - console.written.length)).reverse ++ console.written
          room := some (limit - console.written.length - bytes.length) }) := by
  rw [write, capped]
  dsimp only
  rw [List.reverseAux_eq]

theorem write_capped_of_le (hfits : console.written.length + bytes.length ≤ limit) :
    (console.capped limit).write bytes = (true, (console.append bytes).capped limit) := by
  have hlength : bytes.length ≤ limit - console.written.length := by omega
  rw [write_capped, List.take_of_length_le hlength, decide_eq_true hlength, capped,
    length_written_append, Nat.sub_add_eq, append]

theorem unread_write (console : Console) (bytes : List UInt8) :
    (console.write bytes).2.unread = console.unread := by
  unfold write
  cases console.room with
  | none => rfl
  | some room => rfl

theorem written_suffix_write (console : Console) (bytes : List UInt8) :
    console.written <:+ (console.write bytes).2.written := by
  unfold write
  cases console.room with
  | none =>
      dsimp only
      rw [List.reverseAux_eq]
      exact List.suffix_append _ _
  | some room =>
      dsimp only
      rw [List.reverseAux_eq]
      exact List.suffix_append _ _

theorem write_capped_of_lt (hfits : console.written.length ≤ limit)
    (hexceeds : limit < console.written.length + bytes.length) :
    ((console.capped limit).write bytes).1 = false := by
  rw [write_capped]
  exact decide_eq_false (by omega)

theorem output_write_capped (hfits : console.written.length ≤ limit) (bytes : List UInt8) :
    ((console.capped limit).write bytes).2.output =
      (console.output ++ bytes).take limit := by
  have hlength := console.length_output
  rw [write_capped, output, List.reverse_append, List.reverse_reverse, List.take_append, hlength,
    List.take_of_length_le (hlength.trans_le hfits), output]

end Write

end Console

/-! ### Traces -/

namespace Trace

def capped (trace : Trace) (limit : Nat) : Trace :=
  { trace with world.console := trace.world.console.capped limit }

/-- The later trace adds moments and output and consumes input. -/
structure Extends (trace later : Trace) : Prop where
  moments : trace.moments <+: later.moments
  written : trace.world.console.written <:+ later.world.console.written
  unread : later.world.console.unread <:+ trace.world.console.unread

theorem Extends.refl (trace : Trace) : trace.Extends trace :=
  ⟨List.prefix_rfl, List.suffix_rfl, List.suffix_rfl⟩

theorem Extends.trans {first second third : Trace} (hsecond : first.Extends second)
    (hthird : second.Extends third) : first.Extends third :=
  ⟨hsecond.moments.trans hthird.moments, hsecond.written.trans hthird.written,
    hthird.unread.trans hsecond.unread⟩

theorem extends_environment (trace : Trace) (environment : Environment) :
    trace.Extends { trace with world.environment := environment } :=
  ⟨List.prefix_rfl, List.suffix_rfl, List.suffix_rfl⟩

theorem extends_change (trace : Trace) (place : Place) (event : Event)
    (update : Environment → Environment) : trace.Extends (trace.change place event update) :=
  ⟨List.prefix_append _ _, List.suffix_rfl, List.suffix_rfl⟩

end Trace

/-- The last statement that was entered is a `DISPLAY` on the given line. -/
def Moment.EndInDisplay (moments : List Moment) (line : Nat) : Prop :=
  ∃ earlier place value environment evaluated,
    moments = earlier ++ ⟨place, .execute (.display value line), environment⟩ :: evaluated ∧
      ∀ moment ∈ evaluated, ∀ statement, moment.event ≠ .execute statement

/-- The capped trace stops within the other one, at a `DISPLAY`, and then leaves its scopes. -/
def Trace.StopsInDisplay (free capped : Trace) (line : Nat) : Prop :=
  ∃ before after, capped.moments = before ++ after ∧ before <+: free.moments ∧
    Moment.EndInDisplay before line ∧ ∀ moment ∈ after, moment.event = .pop

/-- What a run with a limit has come to when the other one has gone past the limit. -/
structure Trace.Overrun (limit line : Nat) (free capped : Trace) : Prop where
  exceeds : limit < free.world.console.output.length
  output : capped.world.console.output = free.world.console.output.take limit
  unread : free.world.console.unread <:+ capped.world.console.unread
  stops : free.StopsInDisplay capped line

namespace Trace

variable {limit line : Nat} {free capped later : Trace}

theorem Overrun.extend (hoverrun : Overrun limit line free capped) (hextends : free.Extends later) :
    Overrun limit line later capped := by
  obtain ⟨more, hmore⟩ := hextends.written
  have houtput : later.world.console.output = free.world.console.output ++ more.reverse := by
    rw [Console.output, ← hmore, List.reverse_append]
    rfl
  obtain ⟨before, after, hmoments, hbefore, hdisplay, hafter⟩ := hoverrun.stops
  refine ⟨?_, ?_, hextends.unread.trans hoverrun.unread,
    before, after, hmoments, hbefore.trans hextends.moments, hdisplay, hafter⟩
  · rw [houtput, List.length_append]
    exact Nat.lt_add_right _ hoverrun.exceeds
  · rw [houtput, hoverrun.output, List.take_append_of_le_length hoverrun.exceeds.le]

theorem Overrun.pop (hoverrun : Overrun limit line free capped) (place : Place) :
    Overrun limit line free (capped.change place .pop Environment.pop) := by
  obtain ⟨before, after, hmoments, hbefore, hdisplay, hafter⟩ := hoverrun.stops
  refine ⟨hoverrun.exceeds, hoverrun.output, hoverrun.unread,
    before, after ++ [⟨place, .pop, capped.world.environment.pop⟩], ?_, hbefore, hdisplay, ?_⟩
  · rw [moments_change, hmoments, List.append_assoc]
  · intro moment hmem
    rcases List.mem_append.mp hmem with hmem | hmem
    · exact hafter moment hmem
    · rw [List.mem_singleton.mp hmem]

end Trace

/-! ### Computations -/

namespace Traced

variable {α β : Type}

def last : EStateM.Result Stop Trace α → Trace
  | .ok _ trace => trace
  | .error _ trace => trace

def overrunAt (line : Nat) : Stop := .fault ⟨.inputOutput "failed to write whole buffer", line⟩

/-- What becomes of an outcome under a limit: the same while all that is written fits, and otherwise
a stop at the write that does not. -/
inductive Capped (limit : Nat) :
    EStateM.Result Stop Trace α → EStateM.Result Stop Trace α → Prop where
  | ok {result : α} {trace : Trace} (hroom : trace.world.console.room = none)
      (hfits : trace.world.console.written.length ≤ limit) :
      Capped limit (.ok result trace) (.ok result (trace.capped limit))
  | error {stop : Stop} {trace : Trace} (hroom : trace.world.console.room = none)
      (hfits : trace.world.console.written.length ≤ limit) :
      Capped limit (.error stop trace) (.error stop (trace.capped limit))
  | overrun {outcome : EStateM.Result Stop Trace α} {line : Nat} {capped : Trace}
      (hoverrun : (last outcome).Overrun limit line capped) :
      Capped limit outcome (.error (overrunAt line) capped)

/-- The computation only adds to its trace, and a limit does to it what `Capped` says. -/
structure Cappable (traced : Traced α) : Prop where
  grows (trace : Trace) : trace.Extends (last (traced.run trace))
  capped (trace : Trace) (limit : Nat) (hroom : trace.world.console.room = none)
    (hfits : trace.world.console.written.length ≤ limit) :
    Capped limit (traced.run trace) (traced.run (trace.capped limit))

theorem cappable_pure (result : α) : Cappable (pure result) :=
  ⟨fun trace => .refl trace, fun _ _ hroom hfits => .ok hroom hfits⟩

theorem cappable_throw (stop : Stop) : Cappable (throw stop : Traced α) :=
  ⟨fun trace => .refl trace, fun _ _ hroom hfits => .error hroom hfits⟩

/-- What goes on after the first part is looked at only where that part can lead. -/
theorem cappable_bind_of_run {first : Traced α} {next : α → Traced β} (hfirst : first.Cappable)
    (hgrows : ∀ (result : α) (later : Trace), later.Extends (last ((next result).run later)))
    (hnext : ∀ {trace result later}, first.run trace = .ok result later → ∀ limit,
      later.world.console.room = none → later.world.console.written.length ≤ limit →
        Capped limit ((next result).run later) ((next result).run (later.capped limit))) :
    (first >>= next).Cappable := by
  refine ⟨fun trace => ?_, fun trace limit hroom hfits => ?_⟩
  · have hextends := hfirst.grows trace
    rw [EStateM.run_bind]
    generalize first.run trace = outcome at hextends ⊢
    cases outcome with
    | ok result later => exact hextends.trans (hgrows result later)
    | error stop later => exact hextends
  · have hcapped := hfirst.capped trace limit hroom hfits
    rw [EStateM.run_bind, EStateM.run_bind]
    generalize hrun : first.run trace = outcome at hcapped ⊢
    generalize first.run (trace.capped limit) = limited at hcapped ⊢
    cases hcapped with
    | ok hroom hfits => exact hnext hrun limit hroom hfits
    | error hroom hfits => exact .error hroom hfits
    | overrun hoverrun =>
        cases outcome with
        | ok result later => exact .overrun (hoverrun.extend (hgrows result later))
        | error stop later => exact .overrun hoverrun

theorem cappable_bind {first : Traced α} {next : α → Traced β} (hfirst : first.Cappable)
    (hnext : ∀ result, (next result).Cappable) : (first >>= next).Cappable :=
  cappable_bind_of_run hfirst (fun result later => (hnext result).grows later)
    fun {_ result later} _ limit => (hnext result).capped later limit

theorem cappable_ite {condition : Prop} [Decidable condition] {first second : Traced α}
    (hfirst : first.Cappable) (hsecond : second.Cappable) :
    (if condition then first else second).Cappable := by
  by_cases hcondition : condition
  · rwa [if_pos hcondition]
  · rwa [if_neg hcondition]

theorem cappable_modify {update : Trace → Trace}
    (hgrows : ∀ trace : Trace, trace.Extends (update trace))
    (hconsole : ∀ trace, (update trace).world.console = trace.world.console)
    (hcapped : ∀ trace limit, update (trace.capped limit) = (update trace).capped limit) :
    Cappable (modify update) := by
  refine ⟨hgrows, fun trace limit hroom hfits => ?_⟩
  have hrun : (modify update : Traced Unit).run (trace.capped limit) =
      .ok () ((update trace).capped limit) := congrArg (EStateM.Result.ok ()) (hcapped trace limit)
  rw [hrun]
  refine .ok ?_ ?_
  · rwa [hconsole]
  · rwa [hconsole]

theorem cappable_note (place : Place) (event : Event) : (note place event).Cappable :=
  cappable_modify (fun trace => trace.extends_change place event id) (fun _ => rfl) fun _ _ => rfl

theorem cappable_note_bind {place : Place} {event : Event} {next : Traced α}
    (hnext : next.Cappable) : (note place event >>= fun _ => next).Cappable :=
  cappable_bind (cappable_note place event) fun _ => hnext

theorem cappable_define (place : Place) (name : String) (binding : Binding) :
    (define place name binding).Cappable :=
  cappable_modify (fun trace => trace.extends_change place _ _) (fun _ => rfl) fun _ _ => rfl

theorem cappable_eval (eval : Eval α) : (lift (Exec.ofEval eval)).Cappable := by
  refine ⟨fun trace => ?_, fun trace limit hroom hfits => ?_⟩
  · rw [run_lift, Exec.run_ofEval]
    cases eval.run trace.world.environment with
    | ok result environment => exact trace.extends_environment environment
    | error error environment => exact trace.extends_environment environment
  · have henvironment : (trace.capped limit).world.environment = trace.world.environment := rfl
    rw [run_lift, run_lift, Exec.run_ofEval, Exec.run_ofEval, henvironment]
    cases eval.run trace.world.environment with
    | ok result environment => exact .ok hroom hfits
    | error error environment => exact .error hroom hfits

theorem cappable_fault (cause : RuntimeCause) (line : Nat) :
    (lift (Exec.fault cause line) : Traced α).Cappable :=
  cappable_throw (.fault ⟨cause, line⟩)

theorem cappable_takeLine : (lift Exec.takeLine).Cappable := by
  refine ⟨fun trace => ?_, fun trace limit hnone hfits => ?_⟩
  · have hwritten := trace.world.console.takeLine_keeps.1
    rw [run_lift, Exec.run_takeLine]
    exact ⟨List.prefix_rfl, hwritten ▸ List.suffix_rfl, ⟨_, trace.world.console.takeLine_append⟩⟩
  · obtain ⟨hwritten, hroom⟩ := trace.world.console.takeLine_keeps
    have hconsole : (trace.capped limit).world.console = trace.world.console.capped limit := rfl
    rw [run_lift, run_lift, Exec.run_takeLine, Exec.run_takeLine, hconsole,
      Console.takeLine_capped]
    exact .ok (hroom.trans hnone) ((congrArg List.length hwritten).trans_le hfits)

theorem cappable_inScope {body : Traced α} (hbody : body.Cappable) (place : Place) :
    (inScope place body).Cappable := by
  refine ⟨fun trace => ?_, fun trace limit hroom hfits => ?_⟩
  · have hextends := (trace.extends_change place .push Environment.push).trans (hbody.grows _)
    rw [run_inScope]
    generalize body.run _ = outcome at hextends ⊢
    cases outcome with
    | ok result later => exact hextends.trans (later.extends_change place .pop Environment.pop)
    | error stop later => exact hextends.trans (later.extends_change place .pop Environment.pop)
  · have hcapped := hbody.capped (trace.change place .push Environment.push) limit hroom hfits
    have hpushed : (trace.capped limit).change place .push Environment.push =
        (trace.change place .push Environment.push).capped limit := rfl
    rw [run_inScope, run_inScope, hpushed]
    generalize body.run (trace.change place .push Environment.push) = outcome at hcapped ⊢
    generalize body.run ((trace.change place .push Environment.push).capped limit) = limited
      at hcapped ⊢
    cases hcapped with
    | ok hroom hfits => exact .ok hroom hfits
    | error hroom hfits => exact .error hroom hfits
    | overrun hoverrun =>
        refine .overrun (Trace.Overrun.pop (hoverrun.extend ?_) place)
        cases outcome with
        | ok result later => exact later.extends_change place .pop Environment.pop
        | error stop later => exact later.extends_change place .pop Environment.pop

theorem cappable_assign (place : Place) (name : Token) (value : Value) :
    (assign place name value).Cappable :=
  cappable_bind (cappable_eval _) fun _ => cappable_note place _

theorem cappable_assignFields (place : Place) (line : Nat) (pairs : List (Token × List Char)) :
    (assignFields place line pairs).Cappable := by
  induction pairs with
  | nil => exact cappable_pure ()
  | cons pair rest ih =>
      refine cappable_bind ?_ fun _ => ih
      exact cappable_bind (cappable_eval _) fun _ =>
        cappable_ite (cappable_assign place pair.1 _) (cappable_fault _ line)

theorem cappable_scan (place : Place) (targets : List Token) (line : Nat) :
    (scan place targets line).Cappable := by
  refine cappable_bind cappable_takeLine fun bytes => ?_
  cases Console.decode? bytes with
  | none => exact cappable_fault _ line
  | some text => exact cappable_ite (cappable_assignFields place line _) (cappable_fault _ line)

theorem cappable_repeatWhile {condition : Traced Value} {body : Traced Unit}
    (hcondition : condition.Cappable) (hbody : body.Cappable) (bound : Nat) :
    (repeatWhile condition body bound).Cappable := by
  induction bound with
  | zero => exact cappable_throw .outOfRounds
  | succ bound ih =>
      exact cappable_bind hcondition fun _ =>
        cappable_ite (cappable_bind hbody fun _ => ih) (cappable_pure ())

end Traced

theorem Expr.cappable_trace (expr : Expr) (place : Place) : (expr.trace place).Cappable := by
  induction expr generalizing place with
  | literal value _ => exact Traced.cappable_note_bind (Traced.cappable_pure value)
  | grouping inner _ ih => exact Traced.cappable_note_bind (ih _)
  | unary op operand line ih =>
      exact Traced.cappable_note_bind (Traced.cappable_bind (ih _) fun _ =>
        Traced.cappable_eval _)
  | binary op left right line ihLeft ihRight =>
      exact Traced.cappable_note_bind (Traced.cappable_bind (ihLeft _) fun _ =>
        Traced.cappable_bind (ihRight _) fun _ => Traced.cappable_eval _)
  | logical op left right _ ihLeft ihRight =>
      exact Traced.cappable_note_bind (Traced.cappable_bind (ihLeft _) fun _ =>
        Traced.cappable_ite (Traced.cappable_pure _) (ihRight _))
  | «variable» name =>
      exact Traced.cappable_note_bind (Traced.cappable_bind (Traced.cappable_eval _) fun _ =>
        Traced.cappable_pure _)
  | assign name value ih =>
      exact Traced.cappable_note_bind (Traced.cappable_bind (ih _) fun _ =>
        Traced.cappable_bind (Traced.cappable_assign _ _ _) fun _ => Traced.cappable_pure _)

namespace Traced

theorem cappable_declare (place : Place) (type : ValueType) (name : Token)
    (initializer : Option Expr) : (declare place type name initializer).Cappable := by
  cases initializer with
  | none => exact cappable_define _ _ _
  | some value =>
      exact cappable_bind (value.cappable_trace _) fun _ =>
        cappable_ite (cappable_define _ _ _) (cappable_fault _ _)

theorem cappable_assignAll (place : Place) (index : Nat) (pairs : List (Token × Option Expr)) :
    (assignAll place index pairs).Cappable := by
  induction pairs generalizing index with
  | nil => exact cappable_pure ()
  | cons pair rest ih =>
      obtain ⟨name, initializer⟩ := pair
      have hassigned : ∀ value : Value,
          (assign place name value >>= fun _ => assignAll place (index + 1) rest).Cappable :=
        fun value => cappable_bind (cappable_assign place name value) fun _ => ih _
      cases initializer with
      | none => exact cappable_bind (cappable_pure Value.nil) hassigned
      | some value => exact cappable_bind (value.cappable_trace _) hassigned

theorem extends_display (value : Value) (line : Nat) (trace : Trace) :
    trace.Extends (last ((lift (Exec.display value line)).run trace)) := by
  have hunread := trace.world.console.unread_write (Console.utf8 (value.display ++ "\n"))
  have hwritten := trace.world.console.written_suffix_write (Console.utf8 (value.display ++ "\n"))
  rw [run_lift, Exec.run_display]
  generalize trace.world.console.write _ = result at hunread hwritten ⊢
  obtain ⟨complete, console⟩ := result
  have hunread : console.unread = trace.world.console.unread := hunread
  cases complete with
  | true => exact ⟨List.prefix_rfl, hwritten, hunread ▸ List.suffix_rfl⟩
  | false => exact ⟨List.prefix_rfl, hwritten, hunread ▸ List.suffix_rfl⟩

/-- The one place where a limit makes a difference. -/
theorem capped_display {value : Value} {line : Nat} {trace : Trace} {limit : Nat}
    (hends : Moment.EndInDisplay trace.moments line) (hroom : trace.world.console.room = none)
    (hfits : trace.world.console.written.length ≤ limit) :
    Capped limit ((lift (Exec.display value line)).run trace)
      ((lift (Exec.display value line)).run (trace.capped limit)) := by
  have hconsole : (trace.capped limit).world.console = trace.world.console.capped limit := rfl
  rw [run_lift, run_lift, Exec.run_display, Exec.run_display, hconsole,
    Console.write_of_room hroom]
  generalize Console.utf8 (value.display ++ "\n") = bytes
  by_cases hwhole : trace.world.console.written.length + bytes.length ≤ limit
  · rw [Console.write_capped_of_le hwhole]
    refine .ok hroom ?_
    change (trace.world.console.append bytes).written.length ≤ limit
    rwa [Console.length_written_append]
  · have hcomplete := Console.write_capped_of_lt hfits (Nat.lt_of_not_le hwhole)
    have houtput := Console.output_write_capped hfits bytes
    have hunread := (trace.world.console.capped limit).unread_write bytes
    have hfree := trace.world.console.output_append bytes
    generalize (trace.world.console.capped limit).write bytes = result at *
    obtain ⟨complete, console⟩ := result
    obtain rfl : complete = false := hcomplete
    refine .overrun ⟨?_, houtput.trans (congrArg (List.take limit) hfree.symm),
      hunread ▸ List.suffix_rfl, trace.moments, [], (List.append_nil _).symm, List.prefix_rfl,
      hends, by simp⟩
    change limit < (trace.world.console.append bytes).output.length
    rw [Console.length_output, Console.length_written_append]
    exact Nat.lt_of_not_le hwhole

end Traced

theorem Expr.enters?_ne_execute (expr : Expr) (place : Place) (statement : Stmt) :
    expr.enters? place ≠ some (.execute statement) := by
  fun_induction Expr.enters? expr place <;> simp_all

/-- Evaluating an expression enters no statement. -/
theorem Expr.exists_evaluated (expr : Expr) (place : Place) (trace : Trace) :
    ∃ evaluated, ((expr.trace place).final trace).moments = trace.moments ++ evaluated ∧
      ∀ moment ∈ evaluated, ∀ statement, moment.event ≠ .execute statement := by
  have hlocal : Locally (fun found => expr.enters? (found.drop place.length)) place
      expr.enters? := by
    intro rest
    change expr.enters? ((place ++ rest).drop place.length) = expr.enters? rest
    rw [List.drop_left]
  obtain ⟨evaluated, hevaluated, harises⟩ := (expr.grows_trace hlocal trace).exists_added
  refine ⟨evaluated, hevaluated, fun moment hmem statement hexecute => ?_⟩
  have harisen := harises moment hmem
  rw [hexecute] at harisen
  exact expr.enters?_ne_execute _ statement harisen

theorem Stmt.cappable_display (value : Expr) (line : Nat) (place : Place) :
    (Traced.note place (.execute (.display value line)) >>= fun _ =>
      value.trace (place ++ [.value]) >>= fun shown =>
        Traced.lift (Exec.display shown line)).Cappable := by
  rw [← bind_assoc]
  refine Traced.cappable_bind_of_run (Traced.cappable_note_bind (value.cappable_trace _))
    (fun shown => Traced.extends_display shown line)
    fun {trace shown later} hrun limit hroom hfits => Traced.capped_display ?_ hroom hfits
  -- Between the statement and the write there is only its value to evaluate.
  obtain ⟨evaluated, hevaluated, hnone⟩ := value.exists_evaluated (place ++ [.value])
    (trace.note place (.execute (.display value line)))
  have hlater : (value.trace (place ++ [.value])).final
      (trace.note place (.execute (.display value line))) = later :=
    congrArg Traced.last hrun
  rw [hlater, Trace.moments_note, List.append_assoc] at hevaluated
  exact ⟨trace.moments, place, value, trace.world.environment, evaluated, hevaluated, hnone⟩

mutual

theorem Stmt.cappable_trace (bound : Nat) (place : Place) :
    (statement : Stmt) → (statement.trace bound place).Cappable
  | .block body _ =>
      Traced.cappable_note_bind
        (Traced.cappable_inScope (Stmt.cappable_traceAll bound place 0 body) place)
  | .expression expr _ =>
      Traced.cappable_note_bind (Traced.cappable_bind (expr.cappable_trace _) fun _ =>
        Traced.cappable_pure ())
  | .conditional condition thenBranch elseBranch _ =>
      Traced.cappable_note_bind (Traced.cappable_bind (condition.cappable_trace _) fun _ =>
        Traced.cappable_ite (Stmt.cappable_trace bound _ thenBranch)
          (Stmt.cappable_traceElse bound _ elseBranch))
  | .loop condition body _ =>
      Traced.cappable_note_bind (Traced.cappable_repeatWhile (condition.cappable_trace _)
        (Stmt.cappable_trace bound _ body) bound)
  | .display value line => Stmt.cappable_display value line place
  | .scan targets line => Traced.cappable_note_bind (Traced.cappable_scan place targets line)
  | .declare type name initializer =>
      Traced.cappable_note_bind (Traced.cappable_declare place type name initializer)
  | .assignAll names values _ =>
      Traced.cappable_note_bind (Traced.cappable_assignAll place 0 (names.zip values))

theorem Stmt.cappable_traceElse (bound : Nat) (place : Place) :
    (branch : Option Stmt) → (Stmt.traceElse bound place branch).Cappable
  | none => Traced.cappable_pure ()
  | some branch => Stmt.cappable_trace bound place branch

theorem Stmt.cappable_traceAll (bound : Nat) (place : Place) (index : Nat) :
    (statements : List Stmt) → (Stmt.traceAll bound place index statements).Cappable
  | [] => Traced.cappable_pure ()
  | first :: rest =>
      Traced.cappable_bind (Stmt.cappable_trace bound _ first) fun _ =>
        Stmt.cappable_traceAll bound place (index + 1) rest

end

/-! ### Programs -/

namespace Program

/-- What is left of an outcome as a finished run. -/
def finished? : EStateM.Result Stop Trace Unit → Option Run
  | .ok _ trace => some ⟨.empty, trace.world.console⟩
  | .error (.fault error) trace => some ⟨Report.empty.add (.runtime error), trace.world.console⟩
  | .error .outOfRounds _ => none

theorem execute_eq_finished? (bound : Nat) (statements : List Stmt) (console : Console) :
    execute bound statements console =
      finished? ((Stmt.traceAll bound [] 0 statements).run (.start console)) := by
  have herases := Stmt.erases_traceAll bound [] 0 statements (.start console)
  have hworld : (Trace.start console).world = { console } := rfl
  rw [hworld] at herases
  rw [execute, ← herases]
  cases (Stmt.traceAll bound [] 0 statements).run (.start console) with
  | ok result trace => rfl
  | error stop trace =>
      cases stop with
      | fault error => rfl
      | outOfRounds => rfl

theorem console_finished? {outcome : EStateM.Result Stop Trace Unit} {run : Run}
    (hrun : finished? outcome = some run) :
    run.console = (Traced.last outcome).world.console := by
  cases outcome with
  | ok result trace =>
      cases hrun
      rfl
  | error stop trace =>
      cases stop with
      | fault error =>
          cases hrun
          rfl
      | outOfRounds => cases hrun

/-- The limited run has written what fits, and has read no more than the other one. -/
structure Run.StopsShort (free limited : Run) (input : List UInt8) (limit line : Nat) : Prop where
  report : limited.report =
    Report.empty.add (.runtime ⟨.inputOutput "failed to write whole buffer", line⟩)
  output : limited.console.output = free.console.output.take limit
  input : ∃ consumed more, input = consumed ++ limited.console.unread ∧
    input = consumed ++ more ++ free.console.unread

/-- The statement stands in the program. -/
def Contains (statements : List Stmt) (statement : Stmt) : Prop :=
  ∃ place, (Call.interpret statements).enters? place = some (.execute statement)

theorem contains_of_mem_history {bound : Nat} {statements : List Stmt} {console : Console}
    {moment : Moment} (hmem : moment ∈ (history bound statements console).moments)
    {statement : Stmt} (hevent : moment.event = .execute statement) :
    Contains statements statement := by
  have hlocal : Locally (Call.interpret statements).enters? []
      (Call.interpret statements).enters? := fun _ => rfl
  have hgrows := (Call.interpret statements).grows_trace bound hlocal (.start console)
  have harises := hgrows.arises hmem
  rw [hevent] at harises
  rcases harises with hstart | hentered
  · rw [List.mem_singleton.mp hstart] at hevent
    cases hevent
  · exact ⟨moment.place, hentered⟩

theorem execute_limited {bound : Nat} {statements : List Stmt} {input : List UInt8} {free : Run}
    (hfree : execute bound statements ⟨input, [], none⟩ = some free) (limit : Nat) :
    ∃ limited, execute bound statements ⟨input, [], some limit⟩ = some limited ∧
      (free.console.output.length ≤ limit →
        limited.report = free.report ∧ limited.console.output = free.console.output ∧
          limited.console.unread = free.console.unread) ∧
      (limit < free.console.output.length →
        ∃ line, free.StopsShort limited input limit line ∧
          (history bound statements ⟨input, [], none⟩).StopsInDisplay
            (history bound statements ⟨input, [], some limit⟩) line) := by
  have hcappable := Stmt.cappable_traceAll bound [] 0 statements
  have hcapped := hcappable.capped (.start ⟨input, [], none⟩) limit rfl (Nat.zero_le limit)
  have hstart : (Trace.start ⟨input, [], none⟩).capped limit =
      .start ⟨input, [], some limit⟩ := rfl
  have hgrows := hcappable.grows (.start ⟨input, [], some limit⟩)
  have hlast : ∀ console, history bound statements console =
      Traced.last ((Stmt.traceAll bound [] 0 statements).run (.start console)) := fun _ => rfl
  rw [execute_eq_finished?] at hfree
  rw [execute_eq_finished?, hlast, hlast]
  rw [hstart] at hcapped
  generalize (Stmt.traceAll bound [] 0 statements).run (.start ⟨input, [], none⟩) = outcome at *
  generalize (Stmt.traceAll bound [] 0 statements).run (.start ⟨input, [], some limit⟩) = found at *
  have hconsole := console_finished? hfree
  have hwithin : ∀ console : Console, console.written.length ≤ limit →
      ¬limit < console.output.length := by
    intro console hfits
    rw [console.length_output]
    exact Nat.not_lt.mpr hfits
  cases hcapped with
  | ok _ hfits =>
      cases hfree
      exact ⟨_, rfl, fun _ => ⟨rfl, rfl, rfl⟩, fun hexceeds => absurd hexceeds (hwithin _ hfits)⟩
  | @error stop _ _ hfits =>
      cases stop with
      | fault error =>
          cases hfree
          refine ⟨_, rfl, fun _ => ⟨rfl, rfl, rfl⟩, fun hexceeds => ?_⟩
          exact absurd hexceeds (hwithin _ hfits)
      | outOfRounds => cases hfree
  | @overrun _ line capped hoverrun =>
      refine ⟨_, rfl, fun hfits => ?_, fun _ => ⟨line, ⟨rfl, ?_, ?_⟩, hoverrun.stops⟩⟩
      · rw [hconsole] at hfits
        exact absurd hfits (Nat.not_le.mpr hoverrun.exceeds)
      · rw [hconsole]
        exact hoverrun.output
      · obtain ⟨consumed, hconsumed⟩ := hgrows.unread
        obtain ⟨more, hmore⟩ := hoverrun.unread
        refine ⟨consumed, more, hconsumed.symm, ?_⟩
        rw [hconsole, List.append_assoc, hmore]
        exact hconsumed.symm

theorem exists_display_of_stops {bound line : Nat} {statements : List Stmt}
    {console : Console} {capped : Trace}
    (hstops : (history bound statements console).StopsInDisplay capped line) :
    ∃ value, Contains statements (.display value line) := by
  obtain ⟨before, after, -, hbefore, hdisplay, -⟩ := hstops
  obtain ⟨earlier, place, value, environment, evaluated, rfl, -⟩ := hdisplay
  have hmem : (⟨place, .execute (.display value line), environment⟩ : Moment) ∈
      (history bound statements console).moments :=
    hbefore.subset (List.mem_append_right _ List.mem_cons_self)
  exact ⟨value, contains_of_mem_history hmem rfl⟩

/-- With limited output a run does the same if its output fits. If not, it writes what fits, reports
nothing but the failed write on the line of a `DISPLAY`, executes nothing after that statement, and
has consumed no more input than the run without a limit. -/
theorem run_limited {bound : Nat} {source : String} {input : List UInt8} {free : Run}
    (hfree : run bound source ⟨input, [], none⟩ = some free) (limit : Nat) :
    ∃ limited, run bound source ⟨input, [], some limit⟩ = some limited ∧
      (free.console.output.length ≤ limit →
        limited.report = free.report ∧ limited.console.output = free.console.output ∧
          limited.console.unread = free.console.unread) ∧
      (limit < free.console.output.length →
        ∃ line value, free.StopsShort limited input limit line ∧
          Contains (parse (scan source).tokens (scan source).report).1 (.display value line) ∧
          (history bound (parse (scan source).tokens (scan source).report).1
            ⟨input, [], none⟩).StopsInDisplay
              (history bound (parse (scan source).tokens (scan source).report).1
                ⟨input, [], some limit⟩) line) := by
  simp only [run] at hfree ⊢
  by_cases hstatic : (parse (scan source).tokens (scan source).report).2.hasStaticError = true
  · rw [if_pos hstatic] at hfree ⊢
    cases hfree
    refine ⟨_, rfl, fun _ => ⟨rfl, rfl, rfl⟩, fun hexceeds => ?_⟩
    exact absurd hexceeds (Nat.not_lt_zero limit)
  · rw [if_neg hstatic] at hfree ⊢
    obtain ⟨limited, hlimited, hsame, hshort⟩ := execute_limited hfree limit
    refine ⟨limited, hlimited, hsame, fun hexceeds => ?_⟩
    obtain ⟨line, hstopsShort, hstops⟩ := hshort hexceeds
    obtain ⟨value, hcontains⟩ := exists_display_of_stops hstops
    exact ⟨line, value, hstopsShort, hcontains, hstops⟩

def echoing : String :=
  "BEGIN CODE INT x\nSCAN: x\nDISPLAY: x $ \"ab\"\nSCAN: x\nDISPLAY: x\nEND CODE"

/-- The limit falls between a displayed value and its line end, before the second input line. -/
theorem run_limited_echoing :
    ∃ free limited line, run 1 echoing ⟨Console.utf8 "7\n8\n", [], none⟩ = some free ∧
      free.console.output = Console.utf8 "7\nab\n8\n" ∧
      run 1 echoing ⟨Console.utf8 "7\n8\n", [], some 4⟩ = some limited ∧
      free.StopsShort limited (Console.utf8 "7\n8\n") 4 line := by
  have houtput : (run 1 echoing ⟨Console.utf8 "7\n8\n", [], none⟩).map (·.console.output) =
      some (Console.utf8 "7\nab\n8\n") := by
    decide +kernel
  obtain ⟨free, hfree, hwritten⟩ := Option.map_eq_some_iff.mp houtput
  obtain ⟨limited, hlimited, -, hshort⟩ := run_limited hfree 4
  have hexceeds : 4 < free.console.output.length := by
    rw [hwritten]
    decide
  obtain ⟨line, value, hstopsShort, -⟩ := hshort hexceeds
  exact ⟨free, limited, line, hfree, hwritten, hlimited, hstopsShort⟩

end Program

end BeginCode
