import BeginCode.Error
import BeginCode.Token

/-!
# Environments

A chain of scopes, the innermost one first. A name is looked up and assigned in the innermost scope
that defines it, and defined in the innermost scope. Replacing a binding keeps its place in the
scope.
-/

namespace BeginCode

structure Binding where
  type : ValueType
  value : Value
  deriving DecidableEq, Repr

structure Scope where
  bindings : List (String × Binding)
  deriving DecidableEq, Repr

namespace Scope

def empty : Scope := ⟨[]⟩

def getIn (name : String) : List (String × Binding) → Option Binding
  | [] => none
  | (other, binding) :: rest => if other = name then some binding else getIn name rest

def get? (scope : Scope) (name : String) : Option Binding := getIn name scope.bindings

def setIn (name : String) (binding : Binding) : List (String × Binding) → List (String × Binding)
  | [] => [(name, binding)]
  | (other, old) :: rest =>
      if other = name then (name, binding) :: rest else (other, old) :: setIn name binding rest

/-- Binds a name, in place of what it was bound to before. -/
def set (scope : Scope) (name : String) (binding : Binding) : Scope :=
  ⟨setIn name binding scope.bindings⟩

@[simp]
theorem get?_empty (name : String) : empty.get? name = none := rfl

theorem getIn_setIn (name other : String) (binding : Binding)
    (bindings : List (String × Binding)) :
    getIn other (setIn name binding bindings) =
      if other = name then some binding else getIn other bindings := by
  induction bindings with
  | nil =>
      by_cases h : other = name
      · simp [setIn, getIn, h]
      · have hne : ¬name = other := fun heq => h heq.symm
        simp [setIn, getIn, h, hne]
  | cons first rest ih =>
      obtain ⟨key, old⟩ := first
      by_cases hkey : key = name
      · by_cases h : other = name
        · simp [setIn, getIn, hkey, h]
        · have hne : ¬name = other := fun heq => h heq.symm
          simp [setIn, getIn, hkey, h, hne]
      · by_cases h : key = other
        · have hne : ¬other = name := fun heq => hkey (h.trans heq)
          simp [setIn, getIn, h, hne]
        · simp [setIn, getIn, hkey, h, ih]

theorem get?_set (scope : Scope) (name other : String) (binding : Binding) :
    (scope.set name binding).get? other =
      if other = name then some binding else scope.get? other :=
  getIn_setIn name other binding scope.bindings

end Scope

/-- Scopes from the innermost outward. -/
structure Environment where
  scopes : List Scope
  deriving DecidableEq, Repr

namespace Environment

/-- A single empty scope. -/
def root : Environment := ⟨[.empty]⟩

def depth (environment : Environment) : Nat := environment.scopes.length

def push (environment : Environment) : Environment := ⟨.empty :: environment.scopes⟩

def pop (environment : Environment) : Environment := ⟨environment.scopes.tail⟩

def find? (environment : Environment) (name : String) : Option Binding :=
  environment.scopes.findSome? (·.get? name)

/-- Binds a name in the innermost scope, if there is a scope at all. -/
def define (environment : Environment) (name : String) (binding : Binding) : Environment :=
  match environment.scopes with
  | [] => environment
  | scope :: outer => ⟨scope.set name binding :: outer⟩

def storeIn (name : String) (value : Value) : List Scope → List Scope
  | [] => []
  | scope :: outer =>
      match scope.get? name with
      | some binding => scope.set name { binding with value } :: outer
      | none => scope :: storeIn name value outer

/-- Gives a new value to the innermost binding of a name. -/
def store (environment : Environment) (name : String) (value : Value) : Environment :=
  ⟨storeIn name value environment.scopes⟩

/-- The innermost binding of the variable that a token names. -/
def lookup (environment : Environment) (name : Token) : Except RuntimeError Binding :=
  match environment.find? name.lexeme with
  | some binding => .ok binding
  | none => .error ⟨.undefinedVariable name.lexeme, name.line⟩

/-- Assigns to the variable that a token names; its type has to admit the value. -/
def assign (environment : Environment) (name : Token) (value : Value) :
    Except RuntimeError Environment := do
  let binding ← environment.lookup name
  if binding.type.admits value then
    return environment.store name.lexeme value
  else
    throw ⟨.typeMismatch name.lexeme binding.type, name.line⟩

theorem assign_of_none {environment : Environment} {name : Token}
    (hfind : environment.find? name.lexeme = none) (value : Value) :
    environment.assign name value = .error ⟨.undefinedVariable name.lexeme, name.line⟩ := by
  rw [assign, lookup, hfind]
  rfl

theorem assign_of_some {environment : Environment} {name : Token} {binding : Binding}
    (hfind : environment.find? name.lexeme = some binding) (value : Value) :
    environment.assign name value =
      if binding.type.admits value then .ok (environment.store name.lexeme value)
      else .error ⟨.typeMismatch name.lexeme binding.type, name.line⟩ := by
  rw [assign, lookup, hfind]
  rfl

@[simp]
theorem pop_push (environment : Environment) : environment.push.pop = environment := rfl

end Environment

end BeginCode
