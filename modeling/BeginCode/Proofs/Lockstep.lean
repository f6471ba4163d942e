import BeginCode.Stmt.Exec

/-!
# Computations in step

Two computations are in step if, from related states, both succeed with related results or both fail
with related errors, and end in related states. Each operation has its rule, so that a comparison of
two runs follows the text of the computations.
-/

namespace BeginCode

/-- Both outcomes are results or both are errors, and they are related. -/
inductive Alike {ε δ σ τ α β : Type} (states : σ → τ → Prop) (errors : ε → δ → Prop)
    (results : α → β → Prop) : EStateM.Result ε σ α → EStateM.Result δ τ β → Prop where
  | ok {one : α} {two : β} {first : σ} {second : τ} (hresults : results one two)
      (hstates : states first second) : Alike states errors results (.ok one first) (.ok two second)
  | error {one : ε} {two : δ} {first : σ} {second : τ} (herrors : errors one two)
      (hstates : states first second) :
      Alike states errors results (.error one first) (.error two second)

/-- From states that are related by `before`, the outcomes are alike. -/
def InStep {ε δ σ τ α β : Type} (before states : σ → τ → Prop) (errors : ε → δ → Prop)
    (results : α → β → Prop) (first : EStateM ε σ α) (second : EStateM δ τ β) : Prop :=
  ∀ one two, before one two → Alike states errors results (first.run one) (second.run two)

section Rules

variable {ε δ σ τ α β γ ζ : Type} {before states : σ → τ → Prop} {errors : ε → δ → Prop}
  {results : α → β → Prop} {others : γ → ζ → Prop}

theorem inStep_pure {one : α} {two : β} (hresults : results one two) :
    InStep states states errors results (pure one) (pure two) :=
  fun _ _ hstates => .ok hresults hstates

theorem inStep_throw {one : ε} {two : δ} (herrors : errors one two) :
    InStep states states errors results (throw one) (throw two) :=
  fun _ _ hstates => .error herrors hstates

/-- What goes on after the first part begins from states as that part leaves them. -/
theorem inStep_bind {first : EStateM ε σ α} {second : EStateM δ τ β} {next : α → EStateM ε σ γ}
    {after : β → EStateM δ τ ζ} (hfirst : InStep before states errors results first second)
    (hnext : ∀ one two, results one two →
      InStep states states errors others (next one) (after two)) :
    InStep before states errors others (first >>= next) (second >>= after) := by
  intro one two hbefore
  rw [EStateM.run_bind, EStateM.run_bind]
  have halike := hfirst one two hbefore
  generalize first.run one = outcome at halike ⊢
  generalize second.run two = found at halike ⊢
  cases halike with
  | ok hresults hstates => exact hnext _ _ hresults _ _ hstates
  | error herrors hstates => exact .error herrors hstates

theorem inStep_ite {condition other : Prop} [Decidable condition] [Decidable other]
    (hsame : condition ↔ other) {first one : EStateM ε σ α} {second two : EStateM δ τ β}
    (hfirst : condition → InStep before states errors results first second)
    (hone : ¬condition → InStep before states errors results one two) :
    InStep before states errors results (if condition then first else one)
      (if other then second else two) := by
  by_cases hcondition : condition
  · rw [if_pos hcondition, if_pos (hsame.mp hcondition)]
    exact hfirst hcondition
  · rw [if_neg hcondition, if_neg (mt hsame.mpr hcondition)]
    exact hone hcondition

end Rules

end BeginCode
