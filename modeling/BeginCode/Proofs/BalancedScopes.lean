import BeginCode.Proofs.Effects
import BeginCode.Proofs.ScopeTracking

/-!
# Scopes are balanced

However a statement ends, there are as many scopes after it as before, and those around the
innermost one declare what they did. A block keeps the innermost scope as well: a statement of the
block can declare something only in the scope of the block, which goes with it.
-/

namespace BeginCode

/-- Only a declaration changes what the scopes declare. -/
theorem Effect.spares_signatures {effect : Effect} (hlocal : effect.isLocal = false) :
    effect.Spares (World.scopesBy Scope.signature) := by
  cases effect with
  | assign name => exact fun world value => world.environment.signatures_store name value
  | declare name => cases hlocal
  | input => exact fun _ => rfl
  | output => exact fun _ _ => rfl

namespace Stmt

theorem preserves_outer (bound : Nat) (statement : Stmt) :
    (statement.exec bound).Preserves (World.outerBy Scope.signature) :=
  have hsurrounds := World.surrounds_scopesBy Scope.signature
  preserves_exec hsurrounds bound hsurrounds.factors statement
    (fun _ _ hlocal => Effect.spares_signatures hlocal)
    fun _ _ => hsurrounds.spares Effect.spares_signatures

theorem preserves_signatures (bound : Nat) (body : List Stmt) :
    (Exec.inScope (execAll bound body)).Preserves (World.scopesBy Scope.signature) :=
  have hsurrounds := World.surrounds_scopesBy Scope.signature
  Exec.preserves_inScope hsurrounds <|
    preserves_execAll hsurrounds bound hsurrounds.factors body
      (fun _ _ hlocal => Effect.spares_signatures hlocal)
      fun _ _ => hsurrounds.spares Effect.spares_signatures

/-- Whether a statement succeeds or stops, it leaves as many scopes as it found, and in all of them
but the innermost one the same names with the same types. A block leaves the names and types of
every scope. -/
theorem final_scopes (bound : Nat) (world : World) :
    (∀ statement : Stmt,
      ((statement.exec bound).final world).environment.depth = world.environment.depth ∧
      ((statement.exec bound).final world).environment.signatures.tail =
        world.environment.signatures.tail) ∧
    ∀ body : List Stmt,
      ((Exec.inScope (execAll bound body)).final world).environment.signatures =
        world.environment.signatures := by
  constructor
  · intro statement
    have houter := preserves_outer bound statement world
    exact ⟨congrArg Prod.fst houter, congrArg Prod.snd houter⟩
  · intro body
    exact preserves_signatures bound body world

end Stmt

end BeginCode
