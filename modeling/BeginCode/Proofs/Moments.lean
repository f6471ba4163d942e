import BeginCode.Proofs.Trace
import Mathlib.Data.List.Chain

/-!
# Moments

What one moment of a run does to the environment, and what stands in the program at its place. A
traced computation goes on from moment to moment in this way only, whether it succeeds or stops, so
a property of whole runs follows from what a single moment can do.
-/

namespace BeginCode

/-! ### What stands at a place -/

/-- What is entered at a place of an expression. -/
def Expr.enters? : Expr → Place → Option Event
  | expr, [] => some (.evaluate expr)
  | grouping inner _, .value :: place => inner.enters? place
  | unary _ operand _, .value :: place => operand.enters? place
  | binary _ left _ _, .left :: place => left.enters? place
  | binary _ _ right _, .right :: place => right.enters? place
  | logical _ left _ _, .left :: place => left.enters? place
  | logical _ _ right _, .right :: place => right.enters? place
  | assign _ value, .value :: place => value.enters? place
  | _, _ => none

/-- What is entered at a place of a statement. -/
def Stmt.enters? : Stmt → Place → Option Event
  | statement, [] => some (.execute statement)
  | .block body _, .item index :: place => (body[index]?).bind (·.enters? place)
  | .expression expr _, .value :: place => expr.enters? place
  | .conditional condition _ _ _, .condition :: place => condition.enters? place
  | .conditional _ thenBranch _ _, .thenBranch :: place => thenBranch.enters? place
  | .conditional _ _ elseBranch _, .elseBranch :: place => elseBranch.bind (·.enters? place)
  | .loop condition _ _, .condition :: place => condition.enters? place
  | .loop _ body _, .body :: place => body.enters? place
  | .display value _, .value :: place => value.enters? place
  | .declare _ _ initializer, .value :: place => initializer.bind (·.enters? place)
  | .assignAll names values _, .item index :: place =>
      ((names.zip values)[index]?).bind fun pair => pair.2.bind (·.enters? place)
  | _, _ => none

theorem Expr.enters?_nil (expr : Expr) : expr.enters? [] = some (.evaluate expr) := by
  cases expr <;> rfl

theorem Stmt.enters?_nil (statement : Stmt) : statement.enters? [] = some (.execute statement) := by
  cases statement <;> rfl

namespace Call

def enters? : Call → Place → Option Event
  | interpret statements, .item index :: place => (statements[index]?).bind (·.enters? place)
  | execute statement, place => statement.enters? place
  | executeBlock statements, .item index :: place => (statements[index]?).bind (·.enters? place)
  | evaluate expr, place => expr.enters? place
  | _, _ => none

/-- What is entered at a place of several calls, by the number of the call. -/
def entersIn? (calls : List Call) : Place → Option Event
  | .item index :: place => (calls[index]?).bind (·.enters? place)
  | _ => none

end Call

/-! ### What a moment does -/

namespace Event

/-- The event takes one environment to the other. A declaration binds a name to nil or to a value of
its type, and an assignment gives a value of its type to a variable that is there. -/
def Leads (before after : Environment) : Event → Prop
  | start => False
  | execute _ | evaluate _ => after = before
  | push => after = before.push
  | pop => after = before.pop
  | declare type name => ∃ value, (value = .nil ∨ type.admits value = true) ∧
      after = before.define name ⟨type, value⟩
  | assign name => ∃ binding value, before.find? name = some binding ∧
      binding.type.admits value = true ∧ after = before.store name value

/-- The event is owed to what stands at its place. -/
def Arises (entered : Option Event) : Event → Prop
  | execute statement => entered = some (execute statement)
  | evaluate expr => entered = some (evaluate expr)
  | declare type name => ∃ token initializer,
      entered = some (execute (.declare type token initializer)) ∧ token.lexeme = name
  | _ => True

end Event

/-- The second trace goes on from the first one, moment by moment. -/
inductive Trace.Grows (entered : Place → Option Event) (trace : Trace) : Trace → Prop
  | refl : Grows entered trace trace
  | console {later : Trace} (console : Console) (hlater : Grows entered trace later) :
      Grows entered trace { later with world.console := console }
  | moment {later : Trace} {place : Place} {event : Event} {update : Environment → Environment}
      (hlater : Grows entered trace later)
      (hleads : event.Leads later.world.environment (update later.world.environment))
      (harises : event.Arises (entered place)) :
      Grows entered trace (later.change place event update)

theorem Trace.Grows.trans {entered : Place → Option Event} {first second third : Trace}
    (hsecond : first.Grows entered second) (hthird : second.Grows entered third) :
    first.Grows entered third := by
  induction hthird with
  | refl => exact hsecond
  | console console _ ih => exact .console console ih
  | moment _ hleads harises ih => exact .moment ih hleads harises

/-- Whether it succeeds or stops, the computation goes on moment by moment. -/
def Traced.Grows {α : Type} (entered : Place → Option Event) (traced : Traced α) : Prop :=
  ∀ trace : Trace, trace.Grows entered (traced.final trace)

namespace Traced

variable {α β : Type} {entered : Place → Option Event}

theorem grows_pure (result : α) : Grows entered (pure result) := by
  intro trace
  exact .refl

theorem grows_throw (stop : Stop) : Grows entered (throw stop : Traced α) := by
  intro trace
  exact .refl

theorem grows_bind {first : Traced α} {next : α → Traced β} (hfirst : first.Grows entered)
    (hnext : ∀ result, (next result).Grows entered) : (first >>= next).Grows entered := by
  intro trace
  have hbefore := hfirst trace
  unfold final at hbefore ⊢
  rw [EStateM.run_bind]
  cases hrun : first.run trace with
  | error stop later =>
      rw [hrun] at hbefore
      exact hbefore
  | ok result later =>
      rw [hrun] at hbefore
      exact hbefore.trans (hnext result later)

theorem grows_ite {condition : Prop} [Decidable condition] {first second : Traced α}
    (hfirst : first.Grows entered) (hsecond : second.Grows entered) :
    (if condition then first else second).Grows entered := by
  by_cases hcondition : condition
  · rw [if_pos hcondition]
    exact hfirst
  · rw [if_neg hcondition]
    exact hsecond

/-- Nothing but the console changes without a moment. -/
theorem grows_lift {exec : Exec α}
    (hexec : ∀ world : World, (exec.final world).environment = world.environment) :
    (lift exec).Grows entered := by
  intro trace
  have henvironment := hexec trace.world
  unfold Exec.final at henvironment
  have hconsole : ∀ world : World, world.environment = trace.world.environment →
      trace.Grows entered { trace with world } := by
    rintro ⟨environment, console⟩ rfl
    exact .console console .refl
  unfold final
  rw [run_lift]
  cases hrun : exec.run trace.world with
  | ok result world =>
      rw [hrun] at henvironment
      exact hconsole world henvironment
  | error stop world =>
      rw [hrun] at henvironment
      exact hconsole world henvironment

theorem grows_fault (cause : RuntimeCause) (line : Nat) :
    (lift (Exec.fault cause line) : Traced α).Grows entered := by
  apply grows_lift
  intro world
  rfl

theorem grows_ofResult (result : Except RuntimeCause Value) (line : Nat) :
    (lift (Exec.ofEval (Eval.ofResult result line))).Grows entered := by
  apply grows_lift
  intro world
  cases result with
  | ok result => rfl
  | error cause => rfl

theorem grows_display (value : Value) (line : Nat) :
    (lift (Exec.display value line)).Grows entered := by
  apply grows_lift
  intro world
  unfold Exec.final
  rw [Exec.run_display]
  cases world.console.write (Console.utf8 (value.display ++ "\n")) with
  | mk complete console =>
      cases complete with
      | true => rfl
      | false => rfl

theorem grows_takeLine : (lift Exec.takeLine).Grows entered := by
  apply grows_lift
  intro world
  rfl

theorem grows_lookup (name : Token) : (lookup name).Grows entered := by
  apply grows_lift
  intro world
  unfold Exec.final
  rw [Exec.run_ofEval, Eval.run_lookup]
  cases world.environment.lookup name with
  | ok binding => rfl
  | error error => rfl

theorem grows_enter {place : Place} {event : Event} {next : Traced α}
    (hleads : ∀ environment : Environment, event.Leads environment environment)
    (harises : event.Arises (entered place)) (hnext : next.Grows entered) :
    (note place event >>= fun _ => next).Grows entered := by
  intro trace
  have hnoted : trace.Grows entered (trace.change place event id) :=
    .moment .refl (hleads _) harises
  exact hnoted.trans (hnext (trace.note place event))

theorem grows_inScope {body : Traced α} (hbody : body.Grows entered) (place : Place) :
    (inScope place body).Grows entered := by
  intro trace
  have hpush : trace.Grows entered (trace.change place .push Environment.push) :=
    .moment .refl rfl trivial
  have hinside := hpush.trans (hbody _)
  unfold final at hinside ⊢
  rw [run_inScope]
  cases hrun : body.run (trace.change place .push Environment.push) with
  | ok result later =>
      rw [hrun] at hinside
      exact .moment hinside rfl trivial
  | error stop later =>
      rw [hrun] at hinside
      exact .moment hinside rfl trivial

theorem grows_define {place : Place} {name : Token} {type : ValueType} {value : Value}
    {initializer : Option Expr}
    (hplace : entered place = some (.execute (.declare type name initializer)))
    (hvalue : value = .nil ∨ type.admits value = true) :
    (define place name.lexeme ⟨type, value⟩).Grows entered := by
  intro trace
  have hmoment : trace.Grows entered (trace.change place (.declare type name.lexeme)
      (·.define name.lexeme ⟨type, value⟩)) :=
    .moment .refl ⟨value, hvalue, rfl⟩ ⟨name, initializer, hplace, rfl⟩
  exact hmoment

theorem grows_assign (place : Place) (name : Token) (value : Value) :
    (assign place name value).Grows entered := by
  intro trace
  unfold assign final
  rw [EStateM.run_bind, run_lift, Exec.run_ofEval, Eval.run_assign]
  cases hfind : trace.world.environment.find? name.lexeme with
  | none =>
      rw [Environment.assign_of_none hfind]
      exact .refl
  | some binding =>
      rw [Environment.assign_of_some hfind]
      by_cases hadmits : binding.type.admits value = true
      · rw [if_pos hadmits]
        have hmoment : trace.Grows entered
            (trace.change place (.assign name.lexeme) (·.store name.lexeme value)) :=
          .moment .refl ⟨binding, value, hfind, hadmits, rfl⟩ trivial
        exact hmoment
      · rw [if_neg hadmits]
        exact .refl

theorem grows_assignFields (place : Place) (line : Nat) (pairs : List (Token × List Char)) :
    (assignFields place line pairs).Grows entered := by
  induction pairs with
  | nil => exact grows_pure ()
  | cons pair rest ih =>
      refine grows_bind ?_ fun _ => ih
      exact grows_bind (grows_lookup pair.1) fun _ =>
        grows_ite (grows_assign place pair.1 _) (grows_fault _ line)

theorem grows_scan (place : Place) (targets : List Token) (line : Nat) :
    (scan place targets line).Grows entered := by
  refine grows_bind grows_takeLine fun bytes => ?_
  cases Console.decode? bytes with
  | none => exact grows_fault _ line
  | some text => exact grows_ite (grows_assignFields place line _) (grows_fault _ line)

theorem grows_repeatWhile {condition : Traced Value} {body : Traced Unit}
    (hcondition : condition.Grows entered) (hbody : body.Grows entered) (bound : Nat) :
    (repeatWhile condition body bound).Grows entered := by
  induction bound with
  | zero => exact grows_throw .outOfRounds
  | succ bound ih =>
      exact grows_bind hcondition fun _ =>
        grows_ite (grows_bind hbody fun _ => ih) (grows_pure ())

end Traced

/-! ### Whole runs -/

/-- What `found` gives at a place and below it. -/
def Locally {δ : Type} (found : Place → δ) (place : Place) (below : Place → δ) : Prop :=
  ∀ rest, found (place ++ rest) = below rest

namespace Locally

variable {δ : Type} {found below : Place → δ} {place : Place}

theorem here (hlocal : Locally found place below) : found place = below [] := by
  have hnil := hlocal []
  rwa [List.append_nil] at hnil

theorem down (hlocal : Locally found place below) (turn : Turn) :
    Locally found (place ++ [turn]) fun rest => below (turn :: rest) := by
  intro rest
  rw [List.append_assoc]
  exact hlocal (turn :: rest)

end Locally

section Growth

variable {entered : Place → Option Event}

theorem Expr.grows_enter {expr : Expr} {place : Place} (hlocal : Locally entered place expr.enters?)
    {next : Traced Value} (hnext : next.Grows entered) :
    (Traced.note place (.evaluate expr) >>= fun _ => next).Grows entered :=
  Traced.grows_enter (fun _ => rfl) (hlocal.here.trans expr.enters?_nil) hnext

theorem Stmt.grows_enter {statement : Stmt} {place : Place}
    (hlocal : Locally entered place statement.enters?) {next : Traced Unit}
    (hnext : next.Grows entered) :
    (Traced.note place (.execute statement) >>= fun _ => next).Grows entered :=
  Traced.grows_enter (fun _ => rfl) (hlocal.here.trans statement.enters?_nil) hnext

theorem Expr.grows_trace (expr : Expr) {place : Place}
    (hlocal : Locally entered place expr.enters?) : (expr.trace place).Grows entered := by
  induction expr generalizing place with
  | literal value _ => exact Expr.grows_enter hlocal (Traced.grows_pure value)
  | grouping inner _ ih => exact Expr.grows_enter hlocal (ih (hlocal.down .value))
  | unary op operand line ih =>
      exact Expr.grows_enter hlocal (Traced.grows_bind (ih (hlocal.down .value)) fun _ =>
        Traced.grows_ofResult _ line)
  | binary op left right line ihLeft ihRight =>
      exact Expr.grows_enter hlocal (Traced.grows_bind (ihLeft (hlocal.down .left)) fun _ =>
        Traced.grows_bind (ihRight (hlocal.down .right)) fun _ => Traced.grows_ofResult _ line)
  | logical op left right _ ihLeft ihRight =>
      exact Expr.grows_enter hlocal (Traced.grows_bind (ihLeft (hlocal.down .left)) fun _ =>
        Traced.grows_ite (Traced.grows_pure _) (ihRight (hlocal.down .right)))
  | «variable» name =>
      exact Expr.grows_enter hlocal (Traced.grows_bind (Traced.grows_lookup name) fun _ =>
        Traced.grows_pure _)
  | assign name value ih =>
      exact Expr.grows_enter hlocal (Traced.grows_bind (ih (hlocal.down .value)) fun _ =>
        Traced.grows_bind (Traced.grows_assign place name _) fun _ => Traced.grows_pure _)

namespace Traced

theorem grows_declare {place : Place} {type : ValueType} {name : Token} {initializer : Option Expr}
    (hlocal : Locally entered place (Stmt.declare type name initializer).enters?) :
    (declare place type name initializer).Grows entered := by
  cases initializer with
  | none => exact grows_define hlocal.here (.inl rfl)
  | some value =>
      refine grows_bind (value.grows_trace (hlocal.down .value)) fun result => ?_
      by_cases hadmits : type.admits result = true
      · rw [if_pos hadmits]
        exact grows_define hlocal.here (.inr hadmits)
      · rw [if_neg hadmits]
        exact grows_fault _ name.line

/-- The items from the one with number `index` on stand at their places. -/
theorem grows_assignAll {place : Place} (pairs : List (Token × Option Expr)) (index : Nat)
    (hlocal : ∀ number, Locally entered (place ++ [.item (index + number)]) fun rest =>
      (pairs[number]?).bind fun pair => pair.2.bind (·.enters? rest)) :
    (assignAll place index pairs).Grows entered := by
  induction pairs generalizing index with
  | nil => exact grows_pure ()
  | cons pair others ih =>
      obtain ⟨name, initializer⟩ := pair
      have hothers : (assignAll place (index + 1) others).Grows entered := by
        apply ih
        intro number
        rw [Nat.add_assoc, Nat.add_comm 1 number]
        exact hlocal (number + 1)
      have hassigned : ∀ value : Value,
          (assign place name value >>= fun _ => assignAll place (index + 1) others).Grows entered :=
        fun value => grows_bind (grows_assign place name value) fun _ => hothers
      cases initializer with
      | none => exact grows_bind (grows_pure Value.nil) hassigned
      | some value => exact grows_bind (value.grows_trace (hlocal 0)) hassigned

end Traced

mutual

theorem Stmt.grows_trace (bound : Nat) : (statement : Stmt) → (place : Place) →
    Locally entered place statement.enters? → (statement.trace bound place).Grows entered
  | .block body _, place, hlocal =>
      Stmt.grows_enter hlocal (Traced.grows_inScope
        (Stmt.grows_traceAll bound body place 0 fun number => by
          rw [Nat.zero_add]
          exact hlocal.down (.item number)) place)
  | .expression expr _, _, hlocal =>
      Stmt.grows_enter hlocal (Traced.grows_bind (expr.grows_trace (hlocal.down .value)) fun _ =>
        Traced.grows_pure ())
  | .conditional condition thenBranch elseBranch _, _, hlocal =>
      Stmt.grows_enter hlocal (Traced.grows_bind (condition.grows_trace (hlocal.down .condition))
        fun _ => Traced.grows_ite (Stmt.grows_trace bound thenBranch _ (hlocal.down .thenBranch))
          (Stmt.grows_traceElse bound elseBranch _ (hlocal.down .elseBranch)))
  | .loop condition body _, _, hlocal =>
      Stmt.grows_enter hlocal (Traced.grows_repeatWhile
        (condition.grows_trace (hlocal.down .condition))
        (Stmt.grows_trace bound body _ (hlocal.down .body)) bound)
  | .display value line, _, hlocal =>
      Stmt.grows_enter hlocal (Traced.grows_bind (value.grows_trace (hlocal.down .value)) fun _ =>
        Traced.grows_display _ line)
  | .scan targets line, place, hlocal =>
      Stmt.grows_enter hlocal (Traced.grows_scan place targets line)
  | .declare _ _ _, _, hlocal => Stmt.grows_enter hlocal (Traced.grows_declare hlocal)
  | .assignAll names values _, _, hlocal =>
      Stmt.grows_enter hlocal (Traced.grows_assignAll (names.zip values) 0 fun number => by
        rw [Nat.zero_add]
        exact hlocal.down (.item number))

theorem Stmt.grows_traceElse (bound : Nat) : (branch : Option Stmt) → (place : Place) →
    Locally entered place (fun rest => branch.bind (·.enters? rest)) →
      (Stmt.traceElse bound place branch).Grows entered
  | none, _, _ => Traced.grows_pure ()
  | some branch, place, hlocal => Stmt.grows_trace bound branch place hlocal

theorem Stmt.grows_traceAll (bound : Nat) : (statements : List Stmt) → (place : Place) →
    (index : Nat) →
    (∀ number, Locally entered (place ++ [.item (index + number)]) fun rest =>
      (statements[number]?).bind (·.enters? rest)) →
      (Stmt.traceAll bound place index statements).Grows entered
  | [], _, _, _ => Traced.grows_pure ()
  | first :: others, place, index, hlocal =>
      Traced.grows_bind (Stmt.grows_trace bound first _ (hlocal 0)) fun _ =>
        Stmt.grows_traceAll bound others place (index + 1) fun number => by
          rw [Nat.add_assoc, Nat.add_comm 1 number]
          exact hlocal (number + 1)

end

namespace Call

theorem grows_trace (bound : Nat) (call : Call) {place : Place}
    (hlocal : Locally entered place call.enters?) : (call.trace bound place).Grows entered := by
  have hitems : ∀ statements : List Stmt,
      (∀ number rest, call.enters? (.item number :: rest) =
        (statements[number]?).bind (·.enters? rest)) →
      (Stmt.traceAll bound place 0 statements).Grows entered := by
    intro statements hstatements
    apply Stmt.grows_traceAll
    intro number rest
    rw [Nat.zero_add]
    exact (hlocal.down (.item number) rest).trans (hstatements number rest)
  cases call with
  | interpret statements => exact hitems statements fun _ _ => rfl
  | execute statement => exact statement.grows_trace bound place hlocal
  | executeBlock statements => exact Traced.grows_inScope (hitems statements fun _ _ => rfl) place
  | evaluate expr =>
      exact Traced.grows_bind (expr.grows_trace hlocal) fun _ => Traced.grows_pure ()
  | scan targets line => exact Traced.grows_scan place targets line
  | display value line => exact Traced.grows_display value line

/-- Failing or not, one call after the other goes on from moment to moment. -/
theorem grows_traceAll (bound index : Nat) (calls : List Call) (trace : Trace)
    (hlocal : ∀ number, Locally entered [.item (index + number)] fun rest =>
      (calls[number]?).bind (·.enters? rest)) :
    trace.Grows entered (traceAll bound index calls trace) := by
  induction calls generalizing index trace with
  | nil => exact .refl
  | cons call rest ih =>
      have hcall : trace.Grows entered ((call.trace bound [.item index]).final trace) :=
        call.grows_trace bound (hlocal 0) trace
      refine hcall.trans (ih (index + 1) _ fun number => ?_)
      rw [Nat.add_assoc, Nat.add_comm 1 number]
      exact hlocal (number + 1)

end Call

end Growth

/-! ### What growth keeps -/

namespace Trace

variable {entered : Place → Option Event} {trace later : Trace}

/-- The last moment has the environment of the world. -/
def Current (trace : Trace) : Prop :=
  trace.moments.getLast?.map Moment.environment = some trace.world.environment

/-- Every moment leads on from the one before it. -/
def Connected (trace : Trace) : Prop :=
  trace.moments.IsChain fun before after => after.event.Leads before.environment after.environment

/-- Later moments come after the earlier ones, and each is owed to what stands at its place. -/
theorem Grows.exists_added (hgrows : trace.Grows entered later) :
    ∃ added, later.moments = trace.moments ++ added ∧
      ∀ moment ∈ added, moment.event.Arises (entered moment.place) := by
  induction hgrows with
  | refl => exact ⟨[], (List.append_nil _).symm, by simp⟩
  | console _ _ ih => exact ih
  | @moment later place event update _ _ harises ih =>
      obtain ⟨added, hadded, hall⟩ := ih
      refine ⟨added ++ [⟨place, event, update later.world.environment⟩], ?_, ?_⟩
      · rw [moments_change, hadded, List.append_assoc]
      · intro moment hmem
        rcases List.mem_append.mp hmem with hmem | hmem
        · exact hall moment hmem
        · rw [List.mem_singleton.mp hmem]
          exact harises

theorem Grows.arises (hgrows : trace.Grows entered later) {moment : Moment}
    (hmem : moment ∈ later.moments) :
    moment ∈ trace.moments ∨ moment.event.Arises (entered moment.place) := by
  obtain ⟨added, hadded, hall⟩ := hgrows.exists_added
  rw [hadded, List.mem_append] at hmem
  exact hmem.imp_right (hall moment)

theorem Grows.current (hgrows : trace.Grows entered later) (hcurrent : trace.Current) :
    later.Current := by
  induction hgrows with
  | refl => exact hcurrent
  | console _ _ ih => exact ih
  | moment _ _ _ _ =>
      rw [Current, moments_change, List.getLast?_append, environment_change]
      rfl

theorem Grows.connected (hgrows : trace.Grows entered later) (hcurrent : trace.Current)
    (hconnected : trace.Connected) : later.Connected := by
  induction hgrows with
  | refl => exact hconnected
  | console _ _ ih => exact ih
  | @moment later place event update hlater hleads _ ih =>
      rw [Connected, moments_change]
      refine List.IsChain.append ih (List.isChain_singleton _) ?_
      intro last hlast first hfirst
      have hlastCurrent := hlater.current hcurrent
      rw [Current, hlast, Option.map_some] at hlastCurrent
      rw [← Option.some.inj hfirst, Option.some.inj hlastCurrent]
      exact hleads

end Trace

end BeginCode
