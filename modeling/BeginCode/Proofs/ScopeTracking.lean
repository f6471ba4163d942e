import BeginCode.Proofs.ProgramReading
import BeginCode.Proofs.StaticScopes

/-!
# Scopes at run time are static

Along a traced run of a program, whenever a statement or an expression is entered, the environment
has the names and types that its place in the program determines. `Traced.Tracks` carries this
through a computation together with the one fault that is about names: a run stops at an undefined
variable only where the static scopes do not declare it.
-/

namespace BeginCode

/-! ### What an environment declares -/

def Scope.signature (scope : Scope) : Signature := fun name => (scope.get? name).map Binding.type

def Environment.signatures (environment : Environment) : List Signature :=
  environment.scopes.map Scope.signature

theorem Scope.signature_set (scope : Scope) (name : String) (binding : Binding) :
    (scope.set name binding).signature = scope.signature.declare binding.type name := by
  funext other
  rw [signature, get?_set, Signature.declare]
  by_cases heq : other = name
  · rw [if_pos heq, if_pos heq, Option.map_some]
  · rw [if_neg heq, if_neg heq, signature]

/-- Storing a value in a binding keeps the declared types. -/
theorem Scope.signature_set_value {scope : Scope} {name : String} {binding : Binding}
    (hbinding : scope.get? name = some binding) (value : Value) :
    (scope.set name { binding with value }).signature = scope.signature := by
  rw [signature_set]
  funext other
  rw [Signature.declare]
  by_cases heq : other = name
  · rw [if_pos heq, heq, signature, hbinding, Option.map_some]
  · rw [if_neg heq]

namespace Environment

theorem signatures_push (environment : Environment) :
    environment.push.signatures = .empty :: environment.signatures := rfl

theorem signatures_pop (environment : Environment) :
    environment.pop.signatures = environment.signatures.tail := List.map_tail

theorem signatures_define {environment : Environment} {inner : Signature} {outer : List Signature}
    (hsignatures : environment.signatures = inner :: outer) (name : String) (binding : Binding) :
    (environment.define name binding).signatures = inner.declare binding.type name :: outer := by
  obtain ⟨scopes⟩ := environment
  cases scopes with
  | nil => cases hsignatures
  | cons scope rest =>
      obtain ⟨rfl, rfl⟩ := List.cons.inj hsignatures
      exact congrArg (· :: rest.map Scope.signature) (scope.signature_set name binding)

theorem signatures_store (environment : Environment) (name : String) (value : Value) :
    (environment.store name value).signatures = environment.signatures := by
  have hstore : ∀ scopes : List Scope,
      (storeIn name value scopes).map Scope.signature = scopes.map Scope.signature := by
    intro scopes
    induction scopes with
    | nil => rfl
    | cons scope outer ih =>
        rw [storeIn]
        cases hbinding : scope.get? name with
        | none => exact congrArg (scope.signature :: ·) ih
        | some binding =>
            exact congrArg (· :: outer.map Scope.signature)
              (Scope.signature_set_value hbinding value)
  exact hstore environment.scopes

theorem find?_eq_none_iff (environment : Environment) (name : String) :
    environment.find? name = none ↔ Undeclared environment.signatures name := by
  simp [find?, Undeclared, signatures, Scope.signature]

end Environment

/-! ### Operators do not look up names -/

theorem ArithmeticOp.apply_ne_undefined (op : ArithmeticOp) (left right : Value) (name : String) :
    op.apply left right ≠ .error (.undefinedVariable name) := by
  unfold apply onIntegers onFloats
  split
  · split
    · exact fun herror => by cases herror
    · split <;> exact fun herror => by cases herror
  · split
    · split <;> exact fun herror => by cases herror
    · exact fun herror => by cases herror

theorem OrderOp.apply_ne_undefined (op : OrderOp) (left right : Value) (name : String) :
    op.apply left right ≠ .error (.undefinedVariable name) := by
  unfold apply
  split
  · exact fun herror => by cases herror
  · split <;> exact fun herror => by cases herror

theorem BinaryOp.apply_ne_undefined (op : BinaryOp) (left right : Value) (name : String) :
    op.apply left right ≠ .error (.undefinedVariable name) := by
  cases op with
  | arithmetic op => exact op.apply_ne_undefined left right name
  | order op => exact op.apply_ne_undefined left right name
  | equality op => exact fun herror => by cases herror
  | join op => exact fun herror => by cases herror

theorem UnaryOp.apply_ne_undefined (op : UnaryOp) (value : Value) (name : String) :
    op.apply value ≠ .error (.undefinedVariable name) := by
  unfold apply
  split
  · exact fun herror => by cases herror
  · split <;> exact fun herror => by cases herror
  · exact fun herror => by cases herror
  · exact fun herror => by cases herror
  · split <;> exact fun herror => by cases herror
  · exact fun herror => by cases herror

/-! ### Moments in their place -/

/-- Whether a statement or an expression is entered. -/
def Event.isEntry : Event → Bool
  | execute _ | evaluate _ => true
  | _ => false

/-- The names that are read, assigned or scanned by what is entered itself. -/
def Event.names : Event → List String
  | evaluate (.variable name) => [name.lexeme]
  | evaluate (.assign name _) => [name.lexeme]
  | execute (.scan targets _) => targets.map Token.lexeme
  | _ => []

/-- What is entered finds the scopes of its place. -/
def Moment.Placed (scopesAt : Place → List Signature) (moment : Moment) : Prop :=
  moment.event.isEntry = true → moment.environment.signatures = scopesAt moment.place

theorem Moment.placed_of_change {scopesAt : Place → List Signature} {moment : Moment}
    (hevent : moment.event.isEntry = false) : moment.Placed scopesAt := by
  intro hentry
  rw [hevent] at hentry
  cases hentry

/-- What is entered uses a name that is not there. -/
def Moment.Misses (moment : Moment) (name : String) : Prop :=
  name ∈ moment.event.names ∧ Undeclared moment.environment.signatures name

def Stop.undefined? : Stop → Option String
  | fault ⟨.undefinedVariable name, _⟩ => some name
  | _ => none

namespace Traced

variable {α β : Type} {scopesAt : Place → List Signature} {owed : String → Prop}
  {before between after : List Signature}

/-- From scopes `before`, the computation enters everything within the scopes of its place and ends
with scopes `after`. If it stops at an undefined variable, it has entered what misses the variable,
unless the name is owed: then something entered earlier misses it. -/
def Tracks (scopesAt : Place → List Signature) (owed : String → Prop)
    (before after : List Signature) (traced : Traced α) : Prop :=
  ∀ trace : Trace, trace.world.environment.signatures = before →
    ∃ more, (traced.final trace).moments = trace.moments ++ more ∧
      (∀ moment ∈ more, moment.Placed scopesAt) ∧
      match traced.run trace with
      | .ok _ later => later.world.environment.signatures = after
      | .error stop _ => ∀ name, stop.undefined? = some name →
          owed name ∨ ∃ moment ∈ more, moment.Misses name

theorem tracks_pure (result : α) : Tracks scopesAt owed before before (pure result) := by
  intro trace hbefore
  exact ⟨[], (List.append_nil _).symm, by simp, hbefore⟩

theorem tracks_bind {first : Traced α} {next : α → Traced β}
    (hfirst : first.Tracks scopesAt owed before between)
    (hnext : ∀ result, (next result).Tracks scopesAt owed between after) :
    (first >>= next).Tracks scopesAt owed before after := by
  intro trace hbefore
  obtain ⟨more, hmoments, hplaced, houtcome⟩ := hfirst trace hbefore
  unfold final at hmoments ⊢
  rw [EStateM.run_bind]
  cases hrun : first.run trace with
  | error stop later =>
      rw [hrun] at hmoments houtcome
      exact ⟨more, hmoments, hplaced, houtcome⟩
  | ok result later =>
      rw [hrun] at hmoments houtcome
      obtain ⟨rest, hrest, hrestPlaced, hlast⟩ := hnext result later houtcome
      refine ⟨more ++ rest, ?_, ?_, ?_⟩
      · rw [← List.append_assoc, ← hmoments]
        exact hrest
      · intro moment hmem
        rcases List.mem_append.mp hmem with hmem | hmem
        · exact hplaced moment hmem
        · exact hrestPlaced moment hmem
      · dsimp only
        cases hlater : (next result).run later with
        | ok value final =>
            rw [hlater] at hlast
            exact hlast
        | error stop final =>
            rw [hlater] at hlast
            intro name hname
            refine (hlast name hname).imp id ?_
            rintro ⟨moment, hmem, hmisses⟩
            exact ⟨moment, List.mem_append_right _ hmem, hmisses⟩

theorem tracks_ite {condition : Prop} [Decidable condition] {first second : Traced α}
    (hfirst : first.Tracks scopesAt owed before after)
    (hsecond : second.Tracks scopesAt owed before after) :
    (if condition then first else second).Tracks scopesAt owed before after := by
  by_cases hcondition : condition
  · rw [if_pos hcondition]
    exact hfirst
  · rw [if_neg hcondition]
    exact hsecond

/-- A computation that keeps the declared types and stops at owed names only. -/
def Keeps (owed : String → Prop) (before : List Signature) (exec : Exec α) : Prop :=
  ∀ world : World, world.environment.signatures = before →
    match exec.run world with
    | .ok _ later => later.environment.signatures = before
    | .error stop _ => ∀ name, stop.undefined? = some name → owed name

theorem tracks_lift {exec : Exec α} (hkeeps : Keeps owed before exec) :
    (lift exec).Tracks scopesAt owed before before := by
  intro trace hbefore
  have houtcome := hkeeps trace.world hbefore
  unfold final
  rw [run_lift]
  cases hexec : exec.run trace.world with
  | ok result world =>
      rw [hexec] at houtcome
      exact ⟨[], (List.append_nil _).symm, by simp, houtcome⟩
  | error stop world =>
      rw [hexec] at houtcome
      exact ⟨[], (List.append_nil _).symm, by simp, fun name hname => .inl (houtcome name hname)⟩

theorem tracks_note {place : Place} {event : Event} (hevent : event.isEntry = false) :
    (note place event).Tracks scopesAt owed before before := by
  intro trace hbefore
  refine ⟨[⟨place, event, trace.world.environment⟩], rfl, ?_, hbefore⟩
  intro moment hmem
  rw [List.mem_singleton.mp hmem]
  exact Moment.placed_of_change hevent

/-- What is entered answers for the names that it uses. -/
theorem tracks_enter {place : Place} {event : Event} {next : Traced α}
    (hplace : scopesAt place = before)
    (hnext : next.Tracks scopesAt (fun name => owed name ∨ name ∈ event.names ∧
      Undeclared before name) before after) :
    (note place event >>= fun _ => next).Tracks scopesAt owed before after := by
  intro trace hbefore
  obtain ⟨more, hmoments, hplaced, houtcome⟩ := hnext (trace.note place event) hbefore
  let entered : Moment := ⟨place, event, trace.world.environment⟩
  have hrun : (note place event >>= fun _ => next).run trace = next.run (trace.note place event) :=
    rfl
  unfold final at hmoments ⊢
  rw [hrun]
  refine ⟨entered :: more, ?_, ?_, ?_⟩
  · rw [hmoments, Trace.moments_note, List.append_assoc]
    rfl
  · intro moment hmem
    rcases List.mem_cons.mp hmem with rfl | hmem
    · intro _
      rw [hplace]
      exact hbefore
    · exact hplaced moment hmem
  · cases hnext : next.run (trace.note place event) with
    | ok result later =>
        rw [hnext] at houtcome
        exact houtcome
    | error stop later =>
        rw [hnext] at houtcome
        intro name hname
        rcases houtcome name hname with (howed | ⟨huses, hundeclared⟩) | ⟨moment, hmem, hmisses⟩
        · exact .inl howed
        · refine .inr ⟨entered, List.mem_cons_self, huses, ?_⟩
          rw [← hbefore] at hundeclared
          exact hundeclared
        · exact .inr ⟨moment, List.mem_cons_of_mem _ hmem, hmisses⟩

/-- A scope of its own leaves the scopes around it as they were. -/
theorem tracks_inScope (inner : Signature) {body : Traced α} (place : Place)
    (hbody : body.Tracks scopesAt owed (.empty :: before) (inner :: after)) :
    (inScope place body).Tracks scopesAt owed before after := by
  intro trace hbefore
  have hpushed : (trace.change place .push Environment.push).world.environment.signatures =
      .empty :: before := by
    rw [Trace.environment_change, Environment.signatures_push, hbefore]
  obtain ⟨more, hmoments, hplaced, houtcome⟩ := hbody _ hpushed
  -- The moments of the body stand between the beginning and the end of the scope.
  have hbetween : ∀ later : Trace,
      later.moments = (trace.change place .push Environment.push).moments ++ more →
      ∃ all, (later.change place .pop Environment.pop).moments = trace.moments ++ all ∧
        (∀ moment ∈ all, moment.Placed scopesAt) ∧ ∀ moment ∈ more, moment ∈ all := by
    intro later hlater
    refine ⟨⟨place, .push, trace.world.environment.push⟩ :: more ++
      [⟨place, .pop, later.world.environment.pop⟩], ?_, ?_, ?_⟩
    · rw [Trace.moments_change, hlater, Trace.moments_change]
      simp only [List.append_assoc, List.cons_append, List.nil_append]
    · intro moment hmem
      simp only [List.cons_append, List.mem_cons, List.mem_append, List.not_mem_nil,
        or_false] at hmem
      rcases hmem with rfl | hmem | rfl
      · exact Moment.placed_of_change rfl
      · exact hplaced moment hmem
      · exact Moment.placed_of_change rfl
    · intro moment hmem
      simp [hmem]
  unfold final at hmoments ⊢
  rw [run_inScope]
  cases hrun : body.run (trace.change place .push Environment.push) with
  | ok result later =>
      rw [hrun] at hmoments houtcome
      obtain ⟨all, hall, hallPlaced, -⟩ := hbetween later hmoments
      have hlater : later.world.environment.signatures = inner :: after := houtcome
      have hpopped : later.world.environment.pop.signatures = after := by
        rw [Environment.signatures_pop, hlater, List.tail_cons]
      exact ⟨all, hall, hallPlaced, hpopped⟩
  | error stop later =>
      rw [hrun] at hmoments houtcome
      obtain ⟨all, hall, hallPlaced, hmore⟩ := hbetween later hmoments
      refine ⟨all, hall, hallPlaced, fun name hname => (houtcome name hname).imp id ?_⟩
      rintro ⟨moment, hmem, hmisses⟩
      exact ⟨moment, hmore moment hmem, hmisses⟩

theorem tracks_define {inner : Signature} {outer : List Signature} (place : Place) (name : String)
    (binding : Binding) :
    (define place name binding).Tracks scopesAt owed (inner :: outer)
      (inner.declare binding.type name :: outer) := by
  intro trace hbefore
  refine ⟨[⟨place, .declare binding.type name, trace.world.environment.define name binding⟩], rfl,
    ?_, Environment.signatures_define hbefore name binding⟩
  intro moment hmem
  rw [List.mem_singleton.mp hmem]
  exact Moment.placed_of_change rfl

/-- After a fault no scopes are asked for. -/
theorem tracks_fault {cause : RuntimeCause} (hcause : ∀ name, cause ≠ .undefinedVariable name)
    (line : Nat) :
    (lift (Exec.fault cause line) : Traced α).Tracks scopesAt owed before after := by
  intro trace _
  refine ⟨[], (List.append_nil _).symm, by simp, ?_⟩
  intro name hname
  cases cause with
  | undefinedVariable other => exact absurd rfl (hcause other)
  | _ => cases hname

theorem keeps_ofResult {result : Except RuntimeCause Value}
    (hresult : ∀ name, result ≠ .error (.undefinedVariable name)) (line : Nat) :
    Keeps owed before (Exec.ofEval (Eval.ofResult result line)) := by
  intro world hbefore
  rw [Exec.run_ofEval, Eval.run_ofResult]
  cases result with
  | ok value => exact hbefore
  | error cause =>
      intro name hname
      cases cause with
      | undefinedVariable other => exact absurd rfl (hresult other)
      | _ => cases hname

theorem keeps_takeLine : Keeps owed before Exec.takeLine := by
  intro world hbefore
  exact hbefore

theorem keeps_display (value : Value) (line : Nat) :
    Keeps owed before (Exec.display value line) := by
  intro world hbefore
  rw [Exec.run_display]
  cases world.console.write (Console.utf8 (value.display ++ "\n")) with
  | mk complete console =>
      cases complete with
      | true => exact hbefore
      | false => exact fun name hname => by cases hname

theorem keeps_lookup {name : Token}
    (howed : Undeclared before name.lexeme → owed name.lexeme) :
    Keeps owed before (Exec.ofEval (Eval.lookup name)) := by
  intro world hbefore
  rw [Exec.run_ofEval, Eval.run_lookup, Environment.lookup]
  cases hfind : world.environment.find? name.lexeme with
  | some binding => exact hbefore
  | none =>
      intro other hother
      cases hother
      apply howed
      rw [← hbefore]
      exact (Environment.find?_eq_none_iff _ _).mp hfind

theorem keeps_assign {name : Token} (howed : Undeclared before name.lexeme → owed name.lexeme)
    (value : Value) : Keeps owed before (Exec.ofEval (Eval.assign name value)) := by
  intro world hbefore
  rw [Exec.run_ofEval, Eval.run_assign]
  cases hfind : world.environment.find? name.lexeme with
  | none =>
      rw [Environment.assign_of_none hfind]
      intro other hother
      cases hother
      apply howed
      rw [← hbefore]
      exact (Environment.find?_eq_none_iff _ _).mp hfind
  | some binding =>
      rw [Environment.assign_of_some hfind]
      by_cases hadmits : binding.type.admits value = true
      · rw [if_pos hadmits]
        exact (Environment.signatures_store _ _ _).trans hbefore
      · rw [if_neg hadmits]
        exact fun other hother => by cases hother

theorem tracks_lookup {name : Token}
    (howed : Undeclared before name.lexeme → owed name.lexeme) :
    (lookup name).Tracks scopesAt owed before before :=
  tracks_lift (keeps_lookup howed)

theorem tracks_assign {name : Token} (howed : Undeclared before name.lexeme → owed name.lexeme)
    (place : Place) (value : Value) :
    (assign place name value).Tracks scopesAt owed before before :=
  tracks_bind (tracks_lift (keeps_assign howed value)) fun _ => tracks_note rfl

theorem tracks_assignFields (place : Place) (line : Nat) {pairs : List (Token × List Char)}
    (howed : ∀ pair ∈ pairs, Undeclared before pair.1.lexeme → owed pair.1.lexeme) :
    (assignFields place line pairs).Tracks scopesAt owed before before := by
  induction pairs with
  | nil => exact tracks_pure ()
  | cons pair rest ih =>
      have hfirst := howed pair List.mem_cons_self
      refine tracks_bind ?_ fun _ => ih fun other hmem => howed other (List.mem_cons_of_mem _ hmem)
      refine tracks_bind (tracks_lookup hfirst) fun binding => ?_
      exact tracks_ite (tracks_assign hfirst place _)
        (tracks_fault (fun _ hcause => by cases hcause) line)

theorem tracks_scan (place : Place) (line : Nat) {targets : List Token}
    (howed : ∀ target ∈ targets, Undeclared before target.lexeme → owed target.lexeme) :
    (scan place targets line).Tracks scopesAt owed before before := by
  refine tracks_bind (tracks_lift keeps_takeLine) fun bytes => ?_
  cases Console.decode? bytes with
  | none => exact tracks_fault (fun _ hcause => by cases hcause) line
  | some text =>
      refine tracks_ite (tracks_assignFields place line fun pair hmem => ?_)
        (tracks_fault (fun _ hcause => by cases hcause) line)
      exact howed pair.1 (List.of_mem_zip hmem).1

theorem tracks_repeatWhile {condition : Traced Value} {body : Traced Unit}
    (hcondition : condition.Tracks scopesAt owed before before)
    (hbody : body.Tracks scopesAt owed before before) (bound : Nat) :
    (repeatWhile condition body bound).Tracks scopesAt owed before before := by
  induction bound with
  | zero =>
      intro trace _
      exact ⟨[], (List.append_nil _).symm, by simp, fun name hname => by cases hname⟩
  | succ bound ih =>
      exact tracks_bind hcondition fun value =>
        tracks_ite (tracks_bind hbody fun _ => ih) (tracks_pure ())

end Traced

section Statements

variable {scopesAt : Place → List Signature} {owed : String → Prop} {before : List Signature}

/-! ### Expressions and simple statements -/

/-- An expression is evaluated within the scopes in which it stands. -/
theorem Expr.tracks_trace (expr : Expr) {place : Place}
    (hlocal : Locally scopesAt place fun _ => before) :
    (expr.trace place).Tracks scopesAt owed before before := by
  induction expr generalizing place owed with
  | literal value _ => exact Traced.tracks_enter hlocal.here (Traced.tracks_pure value)
  | grouping inner _ ih => exact Traced.tracks_enter hlocal.here (ih (hlocal.down _))
  | unary op operand line ih =>
      refine Traced.tracks_enter hlocal.here
        (Traced.tracks_bind (ih (hlocal.down _)) fun value => ?_)
      exact Traced.tracks_lift (Traced.keeps_ofResult (op.apply_ne_undefined value) line)
  | binary op left right line ihLeft ihRight =>
      refine Traced.tracks_enter hlocal.here (Traced.tracks_bind (ihLeft (hlocal.down _))
        fun leftValue => Traced.tracks_bind (ihRight (hlocal.down _)) fun rightValue => ?_)
      exact Traced.tracks_lift
        (Traced.keeps_ofResult (op.apply_ne_undefined leftValue rightValue) line)
  | logical op left right _ ihLeft ihRight =>
      exact Traced.tracks_enter hlocal.here (Traced.tracks_bind (ihLeft (hlocal.down _))
        fun value => Traced.tracks_ite (Traced.tracks_pure value) (ihRight (hlocal.down _)))
  | «variable» name =>
      refine Traced.tracks_enter hlocal.here (Traced.tracks_bind (Traced.tracks_lookup ?_) fun _ =>
        Traced.tracks_pure _)
      exact fun hundeclared => .inr ⟨List.mem_singleton_self _, hundeclared⟩
  | assign name value ih =>
      refine Traced.tracks_enter hlocal.here (Traced.tracks_bind (ih (hlocal.down _)) fun _ =>
        Traced.tracks_bind (Traced.tracks_assign ?_ place _) fun _ => Traced.tracks_pure _)
      exact fun hundeclared => .inr ⟨List.mem_singleton_self _, hundeclared⟩

theorem Stmt.tracks_ofExpr (bound : Nat) (expr : Expr) {place : Place}
    (hlocal : Locally scopesAt place fun _ => before) :
    ((Stmt.ofExpr expr).trace bound place).Tracks scopesAt owed before before :=
  Traced.tracks_enter hlocal.here (Traced.tracks_bind (expr.tracks_trace (hlocal.down _)) fun _ =>
    Traced.tracks_pure ())

/-- A declaration adds its name to the innermost scope, and its initializer does not see it. -/
theorem Stmt.tracks_declare (bound : Nat) (type : ValueType) (name : Token)
    (initializer : Option Expr) {place : Place} {inner : Signature} {outer : List Signature}
    (hlocal : Locally scopesAt place fun _ => inner :: outer) :
    ((Stmt.declare type name initializer).trace bound place).Tracks scopesAt owed (inner :: outer)
      (inner.declare type name.lexeme :: outer) := by
  refine Traced.tracks_enter hlocal.here ?_
  cases initializer with
  | none => exact Traced.tracks_define place name.lexeme ⟨type, .nil⟩
  | some value =>
      refine Traced.tracks_bind (value.tracks_trace (hlocal.down _)) fun result => ?_
      by_cases hadmits : type.admits result = true
      · rw [if_pos hadmits]
        exact Traced.tracks_define place name.lexeme ⟨type, result⟩
      · rw [if_neg hadmits]
        exact Traced.tracks_fault (fun _ hcause => by cases hcause) name.line

theorem Stmt.tracks_loop (bound : Nat) (condition : Expr) {body : Stmt} (line : Nat)
    {place : Place} (hplace : scopesAt place = before)
    (hcondition : Locally scopesAt (place ++ [.condition]) fun _ => before)
    (hbody : ∀ {owed : String → Prop},
      (body.trace bound (place ++ [.body])).Tracks scopesAt owed before before) :
    ((Stmt.loop condition body line).trace bound place).Tracks scopesAt owed before before :=
  Traced.tracks_enter hplace
    (Traced.tracks_repeatWhile (condition.tracks_trace hcondition) hbody bound)

theorem Initializer.tracks_trace (bound : Nat) (initializer : Initializer) {place : Place}
    {outer : List Signature} (hlocal : Locally scopesAt place fun _ => .empty :: outer) :
    (initializer.lower.trace bound place).Tracks scopesAt owed (.empty :: outer)
      (initializer.signature :: outer) := by
  cases initializer with
  | declared type declarator =>
      exact Stmt.tracks_declare bound type declarator.name declarator.initializer hlocal
  | expression expr => exact Stmt.tracks_ofExpr bound expr hlocal

/-! ### Phrases -/

mutual

/-- A phrase is executed within its static scopes and leaves the scopes around it as they were. -/
theorem Phrase.tracks_trace (bound : Nat) : (phrase : Phrase) → {owed : String → Prop} →
    {place : Place} → {outer : List Signature} →
    Locally scopesAt place (phrase.scopesAt outer) →
      (phrase.lower.trace bound place).Tracks scopesAt owed outer outer
  | .display value line, _, _, _, hlocal =>
      Traced.tracks_enter hlocal.here (Traced.tracks_bind (value.tracks_trace (hlocal.down _))
        fun shown => Traced.tracks_lift (Traced.keeps_display shown line))
  | .scan first others line, _, place, _, hlocal => by
      refine Traced.tracks_enter hlocal.here (Traced.tracks_scan place line ?_)
      intro target hmem hundeclared
      exact .inr ⟨List.mem_map_of_mem hmem, hundeclared⟩
  | .expression expr, _, _, _, hlocal => Stmt.tracks_ofExpr bound expr hlocal
  | .conditional branch, _, _, _, hlocal => branch.tracks_trace bound hlocal
  | .loop condition body line, _, _, _, hlocal => by
      rw [Phrase.lower, ← body.lowerWith_none]
      exact Stmt.tracks_loop bound condition line hlocal.here (hlocal.down _)
        (body.tracks_trace bound none (hlocal.down .body))
  | .forLoop none condition increment body line, _, _, _, hlocal =>
      Stmt.tracks_loop bound _ line hlocal.here (hlocal.down _)
        (body.tracks_trace bound increment (hlocal.down .body))
  | .forLoop (some initializer) condition increment body line, _, place, _, hlocal => by
      have hloop := hlocal.down (.item 1)
      refine Traced.tracks_enter hlocal.here
        (Traced.tracks_inScope initializer.signature place ?_)
      refine Traced.tracks_bind (initializer.tracks_trace bound (hlocal.down (.item 0))) fun _ => ?_
      refine Traced.tracks_bind ?_ fun _ => Traced.tracks_pure ()
      exact Stmt.tracks_loop bound _ line hloop.here (hloop.down _)
        (body.tracks_trace bound increment (hloop.down .body))

theorem Body.tracks_trace (bound : Nat) (increment : Option Expr) : (body : Body) →
    {owed : String → Prop} → {place : Place} → {outer : List Signature} →
    Locally scopesAt place (body.scopesAt outer) →
      ((body.lowerWith increment).trace bound place).Tracks scopesAt owed outer outer
  | .mk phrases _, _, place, _, hlocal => by
      refine Traced.tracks_enter hlocal.here (Traced.tracks_inScope .empty place ?_)
      refine Phrase.tracks_traceAll bound increment phrases 0 fun index => ?_
      rw [Nat.zero_add]
      exact hlocal.down (.item index)

theorem Branch.tracks_trace (bound : Nat) : (branch : Branch) → {owed : String → Prop} →
    {place : Place} → {outer : List Signature} →
    Locally scopesAt place (branch.scopesAt outer) →
      (branch.lower.trace bound place).Tracks scopesAt owed outer outer
  | .mk condition body otherwise _, _, _, _, hlocal => by
      rw [Branch.lower, ← body.lowerWith_none]
      exact Traced.tracks_enter hlocal.here
        (Traced.tracks_bind (condition.tracks_trace (hlocal.down .condition)) fun _ =>
          Traced.tracks_ite (body.tracks_trace bound none (hlocal.down .thenBranch))
            (otherwise.tracks_trace bound (hlocal.down .elseBranch)))

theorem Otherwise.tracks_trace (bound : Nat) : (otherwise : Otherwise) →
    {owed : String → Prop} → {place : Place} → {outer : List Signature} →
    Locally scopesAt place (otherwise.scopesAt outer) →
      (Stmt.traceElse bound place otherwise.lower).Tracks scopesAt owed outer outer
  | .nothing, _, _, _, _ => Traced.tracks_pure ()
  | .body body, _, _, _, hlocal => by
      rw [Otherwise.lower, ← body.lowerWith_none]
      exact body.tracks_trace bound none hlocal
  | .chained branch, _, _, _, hlocal => branch.tracks_trace bound hlocal

theorem Phrase.tracks_traceAll (bound : Nat) (increment : Option Expr) :
    (phrases : List Phrase) → (index : Nat) → {owed : String → Prop} → {place : Place} →
    {scopes : List Signature} →
    (∀ number, Locally scopesAt (place ++ [.item (index + number)])
      (Phrase.scopesAtItem scopes phrases number)) →
      (Stmt.traceAll bound place index
        (Phrase.lowerAll phrases ++ increment.toList.map .ofExpr)).Tracks scopesAt owed scopes
          scopes
  | [], index, _, _, _, hlocal => by
      cases increment with
      | none => exact Traced.tracks_pure ()
      | some expr =>
          exact Traced.tracks_bind (Stmt.tracks_ofExpr bound expr (hlocal 0)) fun _ =>
            Traced.tracks_pure ()
  | phrase :: others, index, _, _, _, hlocal => by
      refine Traced.tracks_bind (phrase.tracks_trace bound (hlocal 0)) fun _ => ?_
      refine Phrase.tracks_traceAll bound increment others (index + 1) fun number => ?_
      rw [Nat.add_assoc, Nat.add_comm 1]
      exact hlocal (number + 1)

end

/-! ### Programs -/

/-- The declarations of the program block come before its phrases, each within the scope that the
ones before it have made. -/
theorem Program.Source.tracks_statements (program : Source) (bound : Nat) {place : Place}
    (hlocal : Locally scopesAt place program.scopesAt) (rest done : List (ValueType × Declarator))
    (hdone : program.declarators = done ++ rest) :
    (Stmt.traceAll bound place done.length
      (rest.map (fun entry => entry.2.lower entry.1) ++ Phrase.lowerAll program.phrases)).Tracks
      scopesAt owed
      [.ofList (done.map fun entry => (entry.1, entry.2.name.lexeme)), .empty]
      [.ofList program.declared, .empty] := by
  have hitem : ∀ index rest, scopesAt (place ++ [.item index] ++ rest) =
      program.scopesAt (.item index :: rest) := fun index rest => hlocal.down (.item index) rest
  induction rest generalizing done with
  | nil =>
      rw [List.append_nil] at hdone
      subst hdone
      have hphrases : ∀ number,
          Locally scopesAt (place ++ [.item (program.declarators.length + number)])
            (Phrase.scopesAtItem [.ofList program.declared, .empty] program.phrases number) := by
        intro number below
        rw [hitem, Program.Source.scopesAt, program.length_declared, if_neg (by omega),
          Nat.add_sub_cancel_left]
      have htracks : (Stmt.traceAll bound place program.declarators.length
          (Phrase.lowerAll program.phrases ++ [])).Tracks scopesAt owed
            [.ofList program.declared, .empty] [.ofList program.declared, .empty] :=
        Phrase.tracks_traceAll bound none program.phrases program.declarators.length hphrases
      rw [List.append_nil] at htracks
      exact htracks
  | cons entry rest ih =>
      have hentry : Locally scopesAt (place ++ [.item done.length]) fun _ =>
          [.ofList (done.map fun entry => (entry.1, entry.2.name.lexeme)), .empty] := by
        intro below
        have hindex : done.length < program.declared.length := by
          rw [program.length_declared, hdone, List.length_append, List.length_cons]
          omega
        have htake : program.declared.take done.length =
            done.map fun entry => (entry.1, entry.2.name.lexeme) := by
          rw [Program.Source.declared, hdone, List.map_append]
          exact List.take_left' (List.length_map _)
        rw [hitem, Program.Source.scopesAt, if_pos hindex, htake]
      have hothers := ih (done ++ [entry]) (by rw [hdone, List.append_assoc]; rfl)
      rw [List.length_append, List.length_singleton, List.map_append, List.map_singleton,
        Signature.ofList_append_singleton] at hothers
      exact Traced.tracks_bind
        (Stmt.tracks_declare bound entry.1 entry.2.name entry.2.initializer hentry) fun _ => hothers

theorem Program.Source.tracks_trace (program : Source) (bound : Nat) {place : Place}
    (hlocal : Locally scopesAt place program.scopesAt) :
    (program.lower.trace bound place).Tracks scopesAt owed [.empty] [.empty] := by
  refine Traced.tracks_enter hlocal.here
    (Traced.tracks_inScope (.ofList program.declared) place ?_)
  rw [program.statements_eq]
  exact program.tracks_statements bound hlocal program.declarators [] rfl

end Statements

theorem Event.Arises.eq_of_isEntry {entered : Option Event} {event : Event}
    (harises : event.Arises entered) (hentry : event.isEntry = true) : entered = some event := by
  cases event with
  | execute statement => exact harises
  | evaluate expr => exact harises
  | _ => cases hentry

/-- Whoever uses a name has been entered. -/
theorem Event.isEntry_of_mem_names {event : Event} {name : String}
    (hname : name ∈ event.names) : event.isEntry = true := by
  cases event with
  | execute statement => rfl
  | evaluate expr => rfl
  | _ => cases hname

namespace Program

theorem Source.tracks_traceAll (program : Source) (bound : Nat) :
    (Stmt.traceAll bound [] 0 [program.lower]).Tracks
      (fun place => program.scopesAt place.tail) (fun _ => False) [.empty] [.empty] :=
  Traced.tracks_bind (program.tracks_trace bound fun _ => rfl) fun _ => Traced.tracks_pure ()

/-- Everything that a run of a program enters finds the scopes of its place. -/
theorem Source.signatures_eq_scopesAt (program : Source) {bound : Nat} {console : Console}
    {moment : Moment} (hmem : moment ∈ (history bound [program.lower] console).moments)
    (hentry : moment.event.isEntry = true) :
    moment.environment.signatures = program.scopesAt moment.place.tail := by
  obtain ⟨more, hmoments, hplaced, -⟩ := program.tracks_traceAll bound (.start console) rfl
  rw [history, hmoments] at hmem
  rcases List.mem_cons.mp hmem with rfl | hmem
  · cases hentry
  · exact hplaced moment hmem hentry

/-- Everything that a run of a program enters stands at its place. -/
theorem Source.enters?_eq_event (program : Source) {bound : Nat} {console : Console}
    {moment : Moment} (hmem : moment ∈ (history bound [program.lower] console).moments)
    (hentry : moment.event.isEntry = true) :
    program.lower.enters? moment.place.tail = some moment.event := by
  have hgrows : (Stmt.traceAll bound [] 0 [program.lower]).Grows
      fun place => program.lower.enters? place.tail :=
    Traced.grows_bind (program.lower.grows_trace bound _ fun _ => rfl) fun _ =>
      Traced.grows_pure ()
  rcases (hgrows (.start console)).arises hmem with hmem | harises
  · rw [List.mem_singleton.mp hmem] at hentry
    cases hentry
  · exact harises.eq_of_isEntry hentry

/-- A run of a program that stops at an undefined variable has entered what misses it. -/
theorem Source.exists_misses (program : Source) {bound : Nat} {console : Console} {name : String}
    {line : Nat} {world : World}
    (hrun : (Stmt.execAll bound [program.lower]).run { console } =
      .error (.fault ⟨.undefinedVariable name, line⟩) world) :
    ∃ moment ∈ (history bound [program.lower] console).moments, moment.Misses name := by
  obtain ⟨more, hmoments, -, houtcome⟩ := program.tracks_traceAll bound (.start console) rfl
  have herases := Stmt.erases_traceAll bound [] 0 [program.lower] (.start console)
  rw [show (Trace.start console).world = { console } from rfl, hrun] at herases
  cases htraced : (Stmt.traceAll bound [] 0 [program.lower]).run (.start console) with
  | ok result later =>
      rw [htraced] at herases
      cases herases
  | error stop later =>
      rw [htraced] at herases houtcome
      obtain ⟨rfl, -⟩ := EStateM.Result.error.inj herases
      rcases houtcome name rfl with howed | ⟨moment, hmem, hmisses⟩
      · exact howed.elim
      · refine ⟨moment, ?_, hmisses⟩
        rw [history, hmoments]
        exact List.mem_append_right _ hmem

/-- A run reports the error at which it has stopped. -/
theorem exists_run_of_report {bound : Nat} {statements : List Stmt} {console : Console} {run : Run}
    {error : RuntimeError} (hexecute : execute bound statements console = some run)
    (hreport : run.report = Report.empty.add (.runtime error)) :
    ∃ world, (Stmt.execAll bound statements).run { console } = .error (.fault error) world := by
  unfold execute at hexecute
  cases hrun : (Stmt.execAll bound statements).run { console } with
  | ok result world =>
      rw [hrun] at hexecute
      rw [← Option.some.inj hexecute] at hreport
      cases hreport
  | error stop world =>
      rw [hrun] at hexecute
      cases stop with
      | outOfRounds => cases hexecute
      | fault stopped =>
          rw [← Option.some.inj hexecute] at hreport
          cases hreport
          exact ⟨world, rfl⟩

/-- Whatever a run of an accepted program enters stands at its place and finds exactly the scopes of
that place, where no loop variable is seen outside its loop. An undefined variable is reported only
where the static scopes lack it. -/
theorem exists_source_scopes {source : String}
    (haccepted : (parse (scan source).tokens (scan source).report).2 = .empty) :
    ∃ program : Source,
      (parse (scan source).tokens (scan source).report).1 = [program.lower] ∧
      Source.Spelled (scan source).tokens program
        ((scan source).tokens.dropWhile fun token => token.kind != .endOfInput) ∧
      ∀ (bound : Nat) (console : Console),
        (history bound [program.lower] console).world =
          (Stmt.execAll bound [program.lower]).final { console } ∧
        (∀ moment ∈ (history bound [program.lower] console).moments, moment.event.isEntry = true →
          program.lower.enters? moment.place.tail = some moment.event ∧
          moment.environment.signatures = program.scopesAt moment.place.tail ∧
          ∀ name, moment.environment.find? name ≠ none →
            (∃ type, (type, name) ∈ program.declared) ∨
              program.lower.InLoopOf name moment.place.tail) ∧
        ∀ name line run, execute bound [program.lower] console = some run →
          run.report = Report.empty.add (.runtime ⟨.undefinedVariable name, line⟩) →
            ∃ moment ∈ (history bound [program.lower] console).moments,
              moment.event.isEntry = true ∧ name ∈ moment.event.names ∧
                Undeclared (program.scopesAt moment.place.tail) name := by
  have hreport := report_eq_empty_of_parse haccepted
  rw [hreport] at haccepted ⊢
  obtain ⟨program, hparse, hspelled⟩ := parse_sound haccepted
  refine ⟨program, hparse, hspelled, fun bound console => ⟨world_history _ _ _, ?_, ?_⟩⟩
  · intro moment hmem hentry
    have hscopes := program.signatures_eq_scopesAt hmem hentry
    refine ⟨program.enters?_eq_event hmem hentry, hscopes, fun name hfind => ?_⟩
    rw [ne_eq, Environment.find?_eq_none_iff, hscopes] at hfind
    simp only [Undeclared, not_forall] at hfind
    obtain ⟨signature, hsignature, hname⟩ := hfind
    exact program.declared_or_inLoopOf hsignature hname
  · intro name line run hexecute hreport
    obtain ⟨world, hrun⟩ := exists_run_of_report hexecute hreport
    obtain ⟨moment, hmem, hname, hundeclared⟩ := program.exists_misses hrun
    have hentry := Event.isEntry_of_mem_names hname
    rw [program.signatures_eq_scopesAt hmem hentry] at hundeclared
    exact ⟨moment, hmem, hentry, hname, hundeclared⟩

/-- A use of a loop variable after its loop. -/
def leaking : String :=
  "BEGIN CODE\nCHAR n\nFOR (INT i = 0; i < 1; i = i + 1)\nBEGIN FOR\nEND FOR\n" ++
    "DISPLAY: i\nEND CODE\n"

theorem exists_source_scopes_leaking :
    (parse (scan leaking).tokens (scan leaking).report).2 = .empty ∧
      ∃ program : Source,
        (parse (scan leaking).tokens (scan leaking).report).1 = [program.lower] ∧
          ∃ moment ∈ (history 3 [program.lower] ⟨[], [], none⟩).moments,
            "i" ∈ moment.event.names ∧ Undeclared (program.scopesAt moment.place.tail) "i" := by
  have haccepted : (parse (scan leaking).tokens (scan leaking).report).2 = .empty := by
    decide +kernel
  have hreported :
      (execute 3 (parse (scan leaking).tokens (scan leaking).report).1 ⟨[], [], none⟩).map
        Run.report = some (Report.empty.add (.runtime ⟨.undefinedVariable "i", 6⟩)) := by
    decide +kernel
  obtain ⟨program, hparse, -, hruns⟩ := exists_source_scopes haccepted
  rw [hparse] at hreported
  obtain ⟨run, hexecute, hreport⟩ := Option.map_eq_some_iff.mp hreported
  obtain ⟨-, -, hundefined⟩ := hruns 3 ⟨[], [], none⟩
  obtain ⟨moment, hmem, -, hname, hundeclared⟩ := hundefined "i" 6 run hexecute hreport
  exact ⟨haccepted, program, hparse, moment, hmem, hname, hundeclared⟩

end Program

end BeginCode
