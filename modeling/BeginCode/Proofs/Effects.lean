import BeginCode.Proofs.Trace

/-!
# Effects

What executing a statement can do is read off its text: it assigns to names, declares names in the
innermost scope, reads a line of input and writes output. What no effect of a statement changes is
the same after the statement as before, whether it succeeds or stops.
-/

namespace BeginCode

inductive Effect where
  | assign (name : String)
  /-- Declares a name in the innermost scope. -/
  | declare (name : String)
  | input
  | output
  deriving DecidableEq, Repr

/-- Whether the effect goes with the scope in which it happens. -/
def Effect.isLocal : Effect → Bool
  | declare _ => true
  | _ => false

def Expr.effects : Expr → List Effect
  | literal _ _ | .variable _ => []
  | grouping inner _ => inner.effects
  | unary _ operand _ => operand.effects
  | binary _ left right _ => left.effects ++ right.effects
  | logical _ left right _ => left.effects ++ right.effects
  | assign name value => .assign name.lexeme :: value.effects

mutual

/-- The effects of a statement on the scopes it is executed in and on the console. What a block
declares goes with the scope of the block. -/
def Stmt.effects : Stmt → List Effect
  | .block body _ => (Stmt.allEffects body).filter fun effect => !effect.isLocal
  | .expression expr _ => expr.effects
  | .conditional condition thenBranch elseBranch _ =>
      condition.effects ++ (thenBranch.effects ++ Stmt.elseEffects elseBranch)
  | .loop condition body _ => condition.effects ++ body.effects
  | .display value _ => .output :: value.effects
  | .scan targets _ => .input :: targets.map fun target => .assign target.lexeme
  | .declare _ name initializer => .declare name.lexeme :: initializer.elim [] Expr.effects
  | .assignAll names values _ =>
      (names.map fun name => .assign name.lexeme) ++
        values.flatMap fun value => value.elim [] Expr.effects

def Stmt.elseEffects : Option Stmt → List Effect
  | none => []
  | some branch => branch.effects

def Stmt.allEffects : List Stmt → List Effect
  | [] => []
  | first :: rest => first.effects ++ Stmt.allEffects rest

end

/-- Whenever the effect happens, it leaves the view of the world as it is. -/
def Effect.Spares {γ : Type} (view : World → γ) : Effect → Prop
  | assign name => ∀ (world : World) (value : Value),
      view { world with environment := world.environment.store name value } = view world
  | declare name => ∀ (world : World) (binding : Binding),
      view { world with environment := world.environment.define name binding } = view world
  | input => ∀ world : World, view { world with console := world.console.takeLine.2 } = view world
  | output => ∀ (world : World) (bytes : List UInt8),
      view { world with console := (world.console.write bytes).2 } = view world

theorem Effect.Spares.of_factors {γ δ : Type} {view : World → γ} {weaker : World → δ}
    (hfactors : ∀ {world later : World}, view later = view world → weaker later = weaker world)
    {effect : Effect} (hspares : effect.Spares view) : effect.Spares weaker := by
  cases effect with
  | assign name => exact fun world value => hfactors (hspares world value)
  | declare name => exact fun world binding => hfactors (hspares world binding)
  | input => exact fun world => hfactors (hspares world)
  | output => exact fun world bytes => hfactors (hspares world bytes)

namespace Exec

variable {α β γ δ : Type} {view : World → γ}

/-- Whether it succeeds or stops, the computation changes nothing in a view of the world. -/
def Preserves (view : World → γ) (exec : Exec α) : Prop :=
  ∀ world, view (exec.final world) = view world

theorem Preserves.of_factors {weaker : World → δ} {exec : Exec α} (hexec : exec.Preserves view)
    (hfactors : ∀ {world later : World}, view later = view world → weaker later = weaker world) :
    exec.Preserves weaker :=
  fun world => hfactors (hexec world)

theorem preserves_pure (result : α) : (pure result : Exec α).Preserves view := fun _ => rfl

theorem preserves_throw (stop : Stop) : (throw stop : Exec α).Preserves view := fun _ => rfl

theorem preserves_fault (cause : RuntimeCause) (line : Nat) :
    (fault cause line : Exec α).Preserves view := preserves_throw _

theorem preserves_bind {first : Exec α} {next : α → Exec β} (hfirst : first.Preserves view)
    (hnext : ∀ result, (next result).Preserves view) : (first >>= next).Preserves view := by
  intro world
  have hbetween := hfirst world
  unfold final at hbetween ⊢
  rw [EStateM.run_bind]
  cases hrun : first.run world with
  | ok result between =>
      rw [hrun] at hbetween
      exact (hnext result between).trans hbetween
  | error stop later =>
      rw [hrun] at hbetween
      exact hbetween

theorem preserves_ite {condition : Prop} [Decidable condition] {first second : Exec α}
    (hfirst : first.Preserves view) (hsecond : second.Preserves view) :
    (if condition then first else second).Preserves view := by
  by_cases hcondition : condition
  · rw [if_pos hcondition]
    exact hfirst
  · rw [if_neg hcondition]
    exact hsecond

theorem preserves_repeatWhile {condition : Expr} {body : Exec Unit}
    (hcondition : (ofEval condition.eval).Preserves view) (hbody : body.Preserves view)
    (bound : Nat) : (repeatWhile condition body bound).Preserves view := by
  induction bound with
  | zero => exact preserves_throw _
  | succ bound ih =>
      exact preserves_bind hcondition fun _ =>
        preserves_ite (preserves_bind hbody fun _ => ih) (preserves_pure ())

/-! ### Single effects -/

theorem preserves_lookup (name : Token) : (ofEval (Eval.lookup name)).Preserves view := by
  intro world
  unfold final
  rw [run_ofEval, Eval.run_lookup]
  cases world.environment.lookup name with
  | ok binding => rfl
  | error error => rfl

theorem preserves_ofResult (result : Except RuntimeCause Value) (line : Nat) :
    (ofEval (Eval.ofResult result line)).Preserves view := by
  cases result with
  | ok value => exact fun _ => rfl
  | error cause => exact fun _ => rfl

theorem preserves_assign {name : Token} (hassign : (Effect.assign name.lexeme).Spares view)
    (value : Value) : (ofEval (Eval.assign name value)).Preserves view := by
  intro world
  unfold final
  rw [run_ofEval, Eval.run_assign]
  cases hfind : world.environment.find? name.lexeme with
  | none =>
      rw [Environment.assign_of_none hfind]
  | some binding =>
      rw [Environment.assign_of_some hfind]
      by_cases hadmits : binding.type.admits value = true
      · rw [if_pos hadmits]
        exact hassign world value
      · rw [if_neg hadmits]

theorem preserves_display (houtput : Effect.output.Spares view) (value : Value) (line : Nat) :
    (display value line).Preserves view := by
  intro world
  have hwrite := houtput world (Console.utf8 (value.display ++ "\n"))
  unfold final
  rw [run_display]
  cases hwritten : world.console.write (Console.utf8 (value.display ++ "\n")) with
  | mk complete console =>
      rw [hwritten] at hwrite
      cases complete with
      | true => exact hwrite
      | false => exact hwrite

/-! ### Several effects -/

theorem preserves_eval (expr : Expr) (heffects : ∀ effect ∈ expr.effects, effect.Spares view) :
    (ofEval expr.eval).Preserves view := by
  induction expr with
  | literal value line => exact preserves_pure value
  | grouping inner line ih => exact ih heffects
  | unary op operand line ih =>
      rw [Expr.eval, ofEval_bind]
      exact preserves_bind (ih heffects) fun _ => preserves_ofResult _ _
  | binary op left right line ihLeft ihRight =>
      rw [Expr.effects, List.forall_mem_append] at heffects
      simp only [Expr.eval, ofEval_bind]
      exact preserves_bind (ihLeft heffects.1) fun _ =>
        preserves_bind (ihRight heffects.2) fun _ => preserves_ofResult _ _
  | logical op left right line ihLeft ihRight =>
      rw [Expr.effects, List.forall_mem_append] at heffects
      rw [Expr.eval, ofEval_bind]
      refine preserves_bind (ihLeft heffects.1) fun value => ?_
      by_cases hdecides : op.decides value = true
      · rw [if_pos hdecides]
        exact preserves_pure value
      · rw [if_neg hdecides]
        exact ihRight heffects.2
  | «variable» name =>
      rw [Expr.eval, ofEval_bind]
      exact preserves_bind (preserves_lookup name) fun _ => preserves_pure _
  | assign name value ih =>
      rw [Expr.effects, List.forall_mem_cons] at heffects
      simp only [Expr.eval, ofEval_bind]
      exact preserves_bind (ih heffects.2) fun _ =>
        preserves_bind (preserves_assign heffects.1 _) fun _ => preserves_pure _

theorem preserves_assignFields {line : Nat} {pairs : List (Token × List Char)}
    (hassign : ∀ pair ∈ pairs, (Effect.assign pair.1.lexeme).Spares view) :
    (assignFields line pairs).Preserves view := by
  induction pairs with
  | nil => exact preserves_pure ()
  | cons pair rest ih =>
      rw [List.forall_mem_cons] at hassign
      have hfirst : (assignField pair.1 pair.2 line).Preserves view :=
        preserves_bind (preserves_lookup _) fun _ =>
          preserves_ite (preserves_assign hassign.1 _) (preserves_fault _ _)
      exact preserves_bind hfirst fun _ => ih hassign.2

theorem preserves_scan {targets : List Token} {line : Nat}
    (heffects : ∀ effect ∈ (Stmt.scan targets line).effects, effect.Spares view) :
    (scan targets line).Preserves view := by
  rw [Stmt.effects, List.forall_mem_cons, List.forall_mem_map] at heffects
  refine preserves_bind heffects.1 fun bytes => ?_
  cases Console.decode? bytes with
  | none => exact preserves_fault _ _
  | some text =>
      refine preserves_ite (preserves_assignFields fun pair hpair => ?_) (preserves_fault _ _)
      exact heffects.2 pair.1 (List.of_mem_zip hpair).1

theorem preserves_assignAll {pairs : List (Token × Option Expr)}
    (hassign : ∀ pair ∈ pairs, (Effect.assign pair.1.lexeme).Spares view)
    (hvalues : ∀ pair ∈ pairs, ∀ effect ∈ pair.2.elim [] Expr.effects, effect.Spares view) :
    (assignAll pairs).Preserves view := by
  induction pairs with
  | nil => exact preserves_pure ()
  | cons pair rest ih =>
      rw [List.forall_mem_cons] at hassign hvalues
      obtain ⟨name, initializer⟩ := pair
      have hothers (value : Value) :
          (do ofEval (Eval.assign name value); assignAll rest : Exec Unit).Preserves view :=
        preserves_bind (preserves_assign hassign.1 value) fun _ => ih hassign.2 hvalues.2
      cases initializer with
      | none => exact preserves_bind (preserves_pure _) hothers
      | some expr => exact preserves_bind (preserves_eval expr hvalues.1) hothers

theorem preserves_declare {type : ValueType} {name : Token} {initializer : Option Expr}
    (heffects : ∀ effect ∈ (Stmt.declare type name initializer).effects, effect.Spares view) :
    (declare type name initializer).Preserves view := by
  rw [Stmt.effects, List.forall_mem_cons] at heffects
  have hdefine (binding : Binding) : (define name.lexeme binding).Preserves view :=
    fun world => heffects.1 world binding
  cases initializer with
  | none => exact hdefine _
  | some value =>
      exact preserves_bind (preserves_eval value heffects.2) fun _ =>
        preserves_ite (hdefine _) (preserves_fault _ _)

/-! ### Scopes -/

/-- In a new scope, the outer view keeps what the whole view sees around the scope, and a
declaration there does not touch it. -/
structure Surrounds (whole : World → γ) (outer : World → δ) : Prop where
  factors {world later : World} (hsame : whole later = whole world) : outer later = outer world
  declare (name : String) : (Effect.declare name).Spares outer
  pop {world later : World}
    (hsame : outer later = outer { world with environment := world.environment.push }) :
    whole { later with environment := later.environment.pop } = whole world

variable {whole : World → γ} {outer : World → δ}

theorem Surrounds.spares (hsurrounds : Surrounds whole outer) {effect : Effect}
    (hspares : effect.isLocal = false → effect.Spares whole) : effect.Spares outer := by
  cases effect with
  | declare name => exact hsurrounds.declare name
  | _ => exact (hspares rfl).of_factors hsurrounds.factors

theorem preserves_inScope (hsurrounds : Surrounds whole outer) {body : Exec α}
    (hbody : body.Preserves outer) : (inScope body).Preserves whole := by
  intro world
  have hinner := hbody { world with environment := world.environment.push }
  unfold final at hinner ⊢
  rw [run_inScope]
  cases hrun : body.run { world with environment := world.environment.push } with
  | ok result after =>
      rw [hrun] at hinner
      exact hsurrounds.pop hinner
  | error stop after =>
      rw [hrun] at hinner
      exact hsurrounds.pop hinner

end Exec

namespace World

variable {γ : Type}

/-- A view of each scope, from the innermost one outward. -/
def scopesBy (view : Scope → γ) (world : World) : List γ := world.environment.scopes.map view

/-- The number of scopes and the view of those around the innermost one. -/
def outerBy (view : Scope → γ) (world : World) : Nat × List γ :=
  (world.environment.depth, (world.scopesBy view).tail)

theorem surrounds_scopesBy (view : Scope → γ) :
    Exec.Surrounds (scopesBy view) (outerBy view) where
  factors {world later} hsame := by
    have hdepth : later.environment.depth = world.environment.depth := by
      simpa [scopesBy, Environment.depth] using congrArg List.length hsame
    rw [outerBy, outerBy, hdepth, hsame]
  declare name world binding := by
    obtain ⟨⟨scopes⟩, console⟩ := world
    cases scopes with
    | nil => rfl
    | cons scope outer => rfl
  pop {world later} hsame := by
    have houter : (later.scopesBy view).tail = world.scopesBy view := congrArg Prod.snd hsame
    rw [← houter, scopesBy, scopesBy, ← List.map_tail]
    rfl

end World

/-! ### Statements -/

namespace Stmt

variable {γ δ : Type} {whole : World → γ} {outer : World → δ}

mutual

/-- A view that the effects of a statement leave alone is preserved. What the statement declares is
allowed to change the whole view, since it can stand in a block that is left again. -/
theorem preserves_exec (hsurrounds : Exec.Surrounds whole outer) (bound : Nat) {ζ : Type}
    {view : World → ζ}
    (hfactors : ∀ {world later : World}, whole later = whole world → view later = view world) :
    (statement : Stmt) →
    (∀ effect ∈ statement.effects, effect.isLocal = false → effect.Spares whole) →
    (∀ effect ∈ statement.effects, effect.Spares view) →
    (statement.exec bound).Preserves view
  | .block body _, heffects, _ => by
      rw [effects] at heffects
      have hbody : ∀ effect ∈ allEffects body, effect.isLocal = false → effect.Spares whole :=
        fun effect hmem hlocal =>
          heffects effect (List.mem_filter.mpr ⟨hmem, by rw [hlocal]; rfl⟩) hlocal
      have houter : ∀ effect ∈ allEffects body, effect.Spares outer :=
        fun effect hmem => hsurrounds.spares (hbody effect hmem)
      have hinside := preserves_execAll hsurrounds bound hsurrounds.factors body hbody houter
      exact (Exec.preserves_inScope hsurrounds hinside).of_factors hfactors
  | .expression expr _, _, hview =>
      Exec.preserves_bind (Exec.preserves_eval expr hview) fun _ => Exec.preserves_pure ()
  | .conditional condition thenBranch elseBranch _, heffects, hview => by
      rw [effects, List.forall_mem_append, List.forall_mem_append] at heffects hview
      refine Exec.preserves_bind (Exec.preserves_eval condition hview.1) fun _ => ?_
      exact Exec.preserves_ite
        (preserves_exec hsurrounds bound hfactors thenBranch heffects.2.1 hview.2.1)
        (preserves_execElse hsurrounds bound hfactors elseBranch heffects.2.2 hview.2.2)
  | .loop condition body _, heffects, hview => by
      rw [effects, List.forall_mem_append] at heffects hview
      exact Exec.preserves_repeatWhile (Exec.preserves_eval condition hview.1)
        (preserves_exec hsurrounds bound hfactors body heffects.2 hview.2) bound
  | .display value line, _, hview => by
      rw [effects, List.forall_mem_cons] at hview
      exact Exec.preserves_bind (Exec.preserves_eval value hview.2) fun _ =>
        Exec.preserves_display hview.1 _ line
  | .scan _ _, _, hview => Exec.preserves_scan hview
  | .declare _ _ _, _, hview => Exec.preserves_declare hview
  | .assignAll names values _, _, hview => by
      rw [effects, List.forall_mem_append, List.forall_mem_map] at hview
      refine Exec.preserves_assignAll (fun pair hpair => ?_) fun pair hpair effect hmem => ?_
      · exact hview.1 pair.1 (List.of_mem_zip hpair).1
      · exact hview.2 effect (List.mem_flatMap.mpr ⟨pair.2, (List.of_mem_zip hpair).2, hmem⟩)

theorem preserves_execElse (hsurrounds : Exec.Surrounds whole outer) (bound : Nat) {ζ : Type}
    {view : World → ζ}
    (hfactors : ∀ {world later : World}, whole later = whole world → view later = view world) :
    (branch : Option Stmt) →
    (∀ effect ∈ elseEffects branch, effect.isLocal = false → effect.Spares whole) →
    (∀ effect ∈ elseEffects branch, effect.Spares view) →
    (execElse bound branch).Preserves view
  | none, _, _ => Exec.preserves_pure ()
  | some branch, heffects, hview => preserves_exec hsurrounds bound hfactors branch heffects hview

theorem preserves_execAll (hsurrounds : Exec.Surrounds whole outer) (bound : Nat) {ζ : Type}
    {view : World → ζ}
    (hfactors : ∀ {world later : World}, whole later = whole world → view later = view world) :
    (statements : List Stmt) →
    (∀ effect ∈ allEffects statements, effect.isLocal = false → effect.Spares whole) →
    (∀ effect ∈ allEffects statements, effect.Spares view) →
    (execAll bound statements).Preserves view
  | [], _, _ => Exec.preserves_pure ()
  | first :: rest, heffects, hview => by
      rw [allEffects, List.forall_mem_append] at heffects hview
      have hfirst := preserves_exec hsurrounds bound hfactors first heffects.1 hview.1
      exact Exec.preserves_bind hfirst fun _ =>
        preserves_execAll hsurrounds bound hfactors rest heffects.2 hview.2

end

end Stmt

end BeginCode
