import BeginCode.Proofs.BalancedScopes
import BeginCode.Proofs.DisplayTokens
import BeginCode.Proofs.LimitedOutput
import BeginCode.Proofs.Stores

/-!
# What a statement modifies

A binding changes only under a name that the statement assigns to, or declares in the scope of the
binding. Evaluating an expression changes values and nothing else. A statement without a `SCAN` in
it leaves the input as it is, and one without a `DISPLAY` leaves the output.
-/

namespace BeginCode

open BeginCode.World (scopesBy outerBy surrounds_scopesBy)

/-! ### The bindings of a name -/

theorem Environment.map_get?_storeIn {name other : String} (hother : name ≠ other) (value : Value)
    (scopes : List Scope) :
    (storeIn other value scopes).map (·.get? name) = scopes.map (·.get? name) := by
  induction scopes with
  | nil => rfl
  | cons scope outer ih =>
      rw [storeIn]
      cases hscope : scope.get? other with
      | none => exact congrArg (scope.get? name :: ·) ih
      | some binding =>
          rw [List.map_cons, List.map_cons, Scope.get?_set, if_neg hother]

/-- Only an assignment to the name or a declaration of it changes the bindings of a name. -/
theorem Effect.spares_bindings {effect : Effect} {name : String}
    (hassign : effect ≠ .assign name) (hdeclare : effect ≠ .declare name) :
    effect.Spares (scopesBy (·.get? name)) := by
  cases effect with
  | assign other =>
      have hother : name ≠ other := fun heq => hassign (congrArg Effect.assign heq.symm)
      exact fun world value => Environment.map_get?_storeIn hother value world.environment.scopes
  | declare other =>
      have hother : name ≠ other := fun heq => hdeclare (congrArg Effect.declare heq.symm)
      intro world binding
      obtain ⟨⟨scopes⟩, console⟩ := world
      cases scopes with
      | nil => rfl
      | cons scope outer =>
          change (scope.set other binding :: outer).map (·.get? name) = _
          rw [List.map_cons, Scope.get?_set, if_neg hother]
          rfl
  | input => exact fun _ => rfl
  | output => exact fun _ _ => rfl

namespace Environment

variable {environment later : Environment} {level : Nat} {name : String}

theorem bindingAt?_eq_none (hlevel : environment.depth ≤ level) :
    environment.bindingAt? level name = none := by
  cases hbinding : environment.bindingAt? level name with
  | none => rfl
  | some binding => exact absurd (lt_depth_of_bindingAt? hbinding) (Nat.not_lt.mpr hlevel)

theorem bindingAt?_eq_of_scopes
    (hsame : later.scopes.map (·.get? name) = environment.scopes.map (·.get? name)) :
    later.bindingAt? level name = environment.bindingAt? level name := by
  have hcolumn (environment : Environment) : environment.bindingAt? level name =
      ((environment.scopes.map (·.get? name)).reverse[level]?).join := by
    rw [bindingAt?, ← List.map_reverse, List.getElem?_map]
    cases environment.scopes.reverse[level]? <;> rfl
  rw [hcolumn, hcolumn, hsame]

/-- The innermost scope holds the bindings of one level only. -/
theorem bindingAt?_tail (hlevel : level + 1 < environment.depth) :
    environment.bindingAt? level name = bindingAt? ⟨environment.scopes.tail⟩ level name := by
  obtain ⟨scopes⟩ := environment
  cases scopes with
  | nil => rfl
  | cons scope outer =>
      have hne : level ≠ outer.length := by
        have hlt : level + 1 < outer.length + 1 := hlevel
        omega
      rw [bindingAt?_cons, if_neg hne, List.tail_cons]

end Environment

/-! ### What stays the same -/

namespace Expr

theorem exists_assign_of_mem_effects {expr : Expr} {effect : Effect}
    (hmem : effect ∈ expr.effects) : ∃ name, effect = .assign name := by
  induction expr with
  | literal value line => cases hmem
  | grouping inner line ih => exact ih hmem
  | unary op operand line ih => exact ih hmem
  | binary op left right line ihLeft ihRight =>
      exact (List.mem_append.mp hmem).elim ihLeft ihRight
  | logical op left right line ihLeft ihRight =>
      exact (List.mem_append.mp hmem).elim ihLeft ihRight
  | «variable» name => cases hmem
  | assign name value ih =>
      rcases List.mem_cons.mp hmem with rfl | hmem
      · exact ⟨_, rfl⟩
      · exact ih hmem

theorem preserves_console (expr : Expr) : (Exec.ofEval expr.eval).Preserves World.console := by
  refine Exec.preserves_eval expr fun effect hmem => ?_
  obtain ⟨name, rfl⟩ := exists_assign_of_mem_effects hmem
  exact fun _ _ => rfl

theorem preserves_signatures (expr : Expr) :
    (Exec.ofEval expr.eval).Preserves (scopesBy Scope.signature) := by
  refine Exec.preserves_eval expr fun effect hmem => ?_
  obtain ⟨name, rfl⟩ := exists_assign_of_mem_effects hmem
  exact Effect.spares_signatures rfl

theorem preserves_bindings {expr : Expr} {name : String} (hassign : .assign name ∉ expr.effects) :
    (Exec.ofEval expr.eval).Preserves (scopesBy (·.get? name)) := by
  refine Exec.preserves_eval expr fun effect hmem => ?_
  obtain ⟨other, rfl⟩ := exists_assign_of_mem_effects hmem
  refine Effect.spares_bindings ?_ (by simp)
  intro heq
  exact hassign (heq ▸ hmem)

end Expr

namespace Stmt

variable {statement : Stmt} {name : String}

theorem preserves_outerBindings (bound : Nat) (hassign : .assign name ∉ statement.effects) :
    (statement.exec bound).Preserves (outerBy (·.get? name)) := by
  have hsurrounds := surrounds_scopesBy (·.get? name)
  have hspares : ∀ effect ∈ statement.effects, effect.isLocal = false →
      effect.Spares (scopesBy (·.get? name)) := by
    intro effect hmem hlocal
    refine Effect.spares_bindings ?_ ?_
    · rintro rfl
      exact hassign hmem
    · rintro rfl
      cases hlocal
  exact preserves_exec hsurrounds bound hsurrounds.factors statement hspares
    fun effect hmem => hsurrounds.spares (hspares effect hmem)

theorem preserves_bindings (bound : Nat) (hassign : .assign name ∉ statement.effects)
    (hdeclare : .declare name ∉ statement.effects) :
    (statement.exec bound).Preserves (scopesBy (·.get? name)) := by
  have hspares : ∀ effect ∈ statement.effects, effect.Spares (scopesBy (·.get? name)) := by
    intro effect hmem
    refine Effect.spares_bindings ?_ ?_
    · rintro rfl
      exact hassign hmem
    · rintro rfl
      exact hdeclare hmem
  exact preserves_exec (surrounds_scopesBy _) bound id statement
    (fun effect hmem _ => hspares effect hmem) hspares

theorem bindingAt?_exec (bound : Nat) (world : World) {level : Nat}
    (hassign : .assign name ∉ statement.effects)
    (hdeclare : level + 1 = world.environment.depth → .declare name ∉ statement.effects) :
    ((statement.exec bound).final world).environment.bindingAt? level name =
      world.environment.bindingAt? level name := by
  have houter := preserves_outerBindings bound hassign world
  have hdepth : ((statement.exec bound).final world).environment.depth =
      world.environment.depth := congrArg Prod.fst houter
  rcases Nat.lt_trichotomy (level + 1) world.environment.depth with hlevel | hlevel | hlevel
  · rw [Environment.bindingAt?_tail (hdepth ▸ hlevel), Environment.bindingAt?_tail hlevel]
    apply Environment.bindingAt?_eq_of_scopes
    simpa only [outerBy, scopesBy, List.map_tail] using congrArg Prod.snd houter
  · exact Environment.bindingAt?_eq_of_scopes
      (preserves_bindings bound hassign (hdeclare hlevel) world)
  · rw [Environment.bindingAt?_eq_none (by omega), Environment.bindingAt?_eq_none (by omega)]

/-! ### Input and output -/

/-- A part of the console is the same in every scope. -/
theorem surrounds_console {γ : Type} (view : Console → γ) :
    Exec.Surrounds (fun world => view world.console) (fun world => view world.console) where
  factors hsame := hsame
  declare _ _ _ := rfl
  pop hsame := hsame

theorem preserves_console {γ : Type} (view : Console → γ) (bound : Nat)
    (hinput : .input ∈ statement.effects → Effect.input.Spares fun world => view world.console)
    (houtput : .output ∈ statement.effects → Effect.output.Spares fun world => view world.console) :
    (statement.exec bound).Preserves fun world => view world.console := by
  have hspares : ∀ effect ∈ statement.effects, effect.Spares fun world => view world.console := by
    intro effect hmem
    cases effect with
    | assign name => exact fun _ _ => rfl
    | declare name => exact fun _ _ => rfl
    | input => exact hinput hmem
    | output => exact houtput hmem
  exact preserves_exec (surrounds_console view) bound id statement
    (fun effect hmem _ => hspares effect hmem) hspares

theorem mem_allEffects {effect : Effect} {statements : List Stmt} :
    effect ∈ allEffects statements ↔ ∃ statement ∈ statements, effect ∈ statement.effects := by
  induction statements with
  | nil => simp [allEffects]
  | cons first rest ih => simp [allEffects, ih]

section Console

variable {effect : Effect} (hassign : ∀ name, effect ≠ .assign name)
  (hlocal : effect.isLocal = false)

include hassign hlocal

theorem mem_effects_iff {statement : Stmt} :
    effect ∈ statement.effects ↔
      ((effect = .input ∧ ∃ targets line, .scan targets line = statement) ∨
        (effect = .output ∧ ∃ value line, .display value line = statement)) ∨
      ∃ child ∈ statement.children, effect ∈ child.effects := by
  have hdeclare (name : String) : effect ≠ .declare name := by
    rintro rfl
    cases hlocal
  have hexpr (expr : Expr) : effect ∉ expr.effects := fun hmem =>
    (expr.exists_assign_of_mem_effects hmem).elim hassign
  have hoptional (value : Option Expr) : effect ∉ value.elim [] Expr.effects := by
    cases value with
    | none => exact List.not_mem_nil
    | some expr => exact hexpr expr
  cases statement with
  | block body line => simp [effects, mem_allEffects, children, hlocal]
  | conditional condition thenBranch elseBranch line =>
      cases elseBranch <;> simp [effects, elseEffects, children, hexpr]
  | scan targets line => simp [effects, children, fun name => (hassign name).symm]
  | declare type name initializer => simp [effects, children, hdeclare, hoptional]
  | assignAll names values line =>
      simp [effects, children, hoptional, fun name => (hassign name).symm]
  | _ => simp [effects, children, hexpr]

end Console

theorem input_mem_effects_iff {statement : Stmt} :
    .input ∈ statement.effects ↔ ∃ targets line, (scan targets line).Within statement := by
  rw [iff_exists_within fun _ => mem_effects_iff (by simp) rfl]
  constructor
  · rintro ⟨inner, ⟨-, targets, line, rfl⟩ | ⟨houtput, -⟩, hwithin⟩
    · exact ⟨targets, line, hwithin⟩
    · cases houtput
  · rintro ⟨targets, line, hwithin⟩
    exact ⟨_, .inl ⟨rfl, targets, line, rfl⟩, hwithin⟩

theorem output_mem_effects_iff {statement : Stmt} :
    .output ∈ statement.effects ↔ ∃ value line, (display value line).Within statement := by
  rw [iff_exists_within fun _ => mem_effects_iff (by simp) rfl]
  constructor
  · rintro ⟨inner, ⟨hinput, -⟩ | ⟨-, value, line, rfl⟩, hwithin⟩
    · cases hinput
    · exact ⟨value, line, hwithin⟩
  · rintro ⟨value, line, hwithin⟩
    exact ⟨_, .inr ⟨rfl, value, line, rfl⟩, hwithin⟩

theorem preserves_input (bound : Nat) {statement : Stmt}
    (hscan : ∀ targets line, ¬(scan targets line).Within statement) :
    (statement.exec bound).Preserves fun world => world.console.unread := by
  refine preserves_console Console.unread bound (fun hmem => ?_) fun _ world bytes => ?_
  · obtain ⟨targets, line, hwithin⟩ := input_mem_effects_iff.mp hmem
    exact absurd hwithin (hscan targets line)
  · exact world.console.unread_write bytes

theorem preserves_output (bound : Nat) {statement : Stmt}
    (hdisplay : ∀ value line, ¬(display value line).Within statement) :
    (statement.exec bound).Preserves fun world => (world.console.written, world.console.room) := by
  refine preserves_console (fun console => (console.written, console.room)) bound
    (fun _ world => ?_) fun hmem => ?_
  · obtain ⟨hwritten, hroom⟩ := world.console.takeLine_keeps
    exact Prod.ext hwritten hroom
  · obtain ⟨value, line, hwithin⟩ := output_mem_effects_iff.mp hmem
    exact absurd hwithin (hdisplay value line)

/-- However a statement or an expression ends, a binding has changed only under a name that it
assigns to, or that a statement declares in the innermost scope. Evaluating leaves the console and
all declarations as they are, and a statement without a `SCAN` or without a `DISPLAY` in it leaves
the input or the output. -/
theorem final_modifies (bound : Nat) (world : World) :
    (∀ (statement : Stmt) (level : Nat) (name : String),
      ((statement.exec bound).final world).environment.bindingAt? level name ≠
          world.environment.bindingAt? level name →
        .assign name ∈ statement.effects ∨
          .declare name ∈ statement.effects ∧ level + 1 = world.environment.depth) ∧
    (∀ expr : Expr,
      ((Exec.ofEval expr.eval).final world).console = world.console ∧
      ((Exec.ofEval expr.eval).final world).environment.signatures =
        world.environment.signatures ∧
      ∀ (level : Nat) (name : String),
        ((Exec.ofEval expr.eval).final world).environment.bindingAt? level name ≠
            world.environment.bindingAt? level name →
          .assign name ∈ expr.effects) ∧
    ∀ statement : Stmt,
      ((∀ targets line, ¬(scan targets line).Within statement) →
        ((statement.exec bound).final world).console.unread = world.console.unread) ∧
      ((∀ value line, ¬(display value line).Within statement) →
        ((statement.exec bound).final world).console.written = world.console.written ∧
        ((statement.exec bound).final world).console.room = world.console.room) := by
  refine ⟨fun statement level name hchanged => ?_, fun expr => ⟨?_, ?_, ?_⟩, fun statement =>
    ⟨fun hscan => ?_, fun hdisplay => ?_⟩⟩
  · by_contra hspared
    rw [not_or, not_and'] at hspared
    exact hchanged (bindingAt?_exec bound world hspared.1 hspared.2)
  · exact expr.preserves_console world
  · exact expr.preserves_signatures world
  · intro level name hchanged
    by_contra hspared
    exact hchanged (Environment.bindingAt?_eq_of_scopes (Expr.preserves_bindings hspared world))
  · exact preserves_input bound hscan world
  · have houtput := preserves_output bound hdisplay world
    exact ⟨congrArg Prod.fst houtput, congrArg Prod.snd houtput⟩

/-- Assigns to `b` in its condition. Its block declares a `b` of its own, assigns to `n` and then
fails. -/
def shadowing : Stmt :=
  let n : Token := ⟨.identifier, "n", 1, none⟩
  let b : Token := ⟨.identifier, "b", 1, none⟩
  .conditional (.assign b (.literal (.bool true) 1))
    (.block [.declare .char b none, .expression (.assign n (.literal (.integer 5) 2)) 2,
      .display (.binary (.arithmetic .div) (.variable n) (.literal (.integer 0) 3) 3) 3] 1) none 1

/-- A scope with a `b` and an `n`, and one around it with another `n`. -/
def shadowed : World :=
  ⟨⟨[⟨[("b", ⟨.bool, .nil⟩), ("n", ⟨.int, .integer 1⟩)]⟩, ⟨[("n", ⟨.int, .integer 2⟩)]⟩]⟩,
    ⟨[49, 10], [], none⟩⟩

theorem final_modifies_shadowing :
    ((shadowing.exec 1).final shadowed).environment.bindingAt? 1 "b" = some ⟨.bool, .bool true⟩ ∧
      shadowing.effects = [.assign "b", .assign "n", .output] ∧
      ((shadowing.exec 1).final shadowed).environment.bindingAt? 0 "n" =
        some ⟨.int, .integer 2⟩ ∧
      (.assign "b" ∈ shadowing.effects ∨
        .declare "b" ∈ shadowing.effects ∧ 1 + 1 = shadowed.environment.depth) ∧
      ((shadowing.exec 1).final shadowed).console.unread = [49, 10] := by
  have hafter : ((shadowing.exec 1).final shadowed).environment.bindingAt? 1 "b" =
      some ⟨.bool, .bool true⟩ := by decide
  have hscan : ∀ targets line, ¬(scan targets line).Within shadowing := by
    have hinput : .input ∉ shadowing.effects := by decide
    intro targets line hwithin
    exact hinput (input_mem_effects_iff.mpr ⟨targets, line, hwithin⟩)
  obtain ⟨hbindings, -, hconsole⟩ := final_modifies 1 shadowed
  refine ⟨hafter, by decide, by decide, ?_, (hconsole shadowing).1 hscan⟩
  refine hbindings shadowing 1 "b" ?_
  rw [hafter]
  decide

end Stmt

end BeginCode
