import Mathlib.Logic.Function.Iterate
import BeginCode.Proofs.Modifies

/-!
# Assignment

Assigning to a name changes the value of its innermost binding, if the declared type admits the
value, and otherwise nothing at all. It obeys the laws of an update: what is read afterwards is what
was assigned, a second assignment to the same name makes the first one undone, and assignments to
different names can change places.
-/

namespace BeginCode

/-! ### Scopes -/

namespace Scope

theorem setIn_setIn (name : String) (first second : Binding) (bindings : List (String × Binding)) :
    setIn name second (setIn name first bindings) = setIn name second bindings := by
  induction bindings with
  | nil => simp [setIn]
  | cons entry bindings ih =>
      obtain ⟨key, old⟩ := entry
      by_cases hkey : key = name
      · simp [setIn, hkey]
      · simp [setIn, hkey, ih]

/-- Two names that are bound keep their places. -/
theorem setIn_comm {name other : String} (hother : name ≠ other) (first second : Binding)
    {bindings : List (String × Binding)} (hname : getIn name bindings ≠ none)
    (hbound : getIn other bindings ≠ none) :
    setIn other second (setIn name first bindings) =
      setIn name first (setIn other second bindings) := by
  induction bindings with
  | nil => exact absurd rfl hname
  | cons entry bindings ih =>
      obtain ⟨key, old⟩ := entry
      by_cases hkey : key = name
      · subst hkey
        simp [setIn, hother]
      by_cases hkeyOther : key = other
      · subst hkeyOther
        simp [setIn, hkey]
      · rw [getIn, if_neg hkey] at hname
        rw [getIn, if_neg hkeyOther] at hbound
        simp [setIn, hkey, hkeyOther, ih hname hbound]

theorem set_set (scope : Scope) (name : String) (first second : Binding) :
    (scope.set name first).set name second = scope.set name second :=
  congrArg Scope.mk (setIn_setIn name first second scope.bindings)

theorem set_comm {name other : String} (hother : name ≠ other) (first second : Binding)
    {scope : Scope} (hname : scope.get? name ≠ none) (hbound : scope.get? other ≠ none) :
    (scope.set name first).set other second = (scope.set other second).set name first :=
  congrArg Scope.mk (setIn_comm hother first second hname hbound)

end Scope

namespace Environment

/-! ### Stores -/

theorem storeIn_storeIn (name : String) (first second : Value) (scopes : List Scope) :
    storeIn name second (storeIn name first scopes) = storeIn name second scopes := by
  induction scopes with
  | nil => rfl
  | cons scope outer ih =>
      cases hscope : scope.get? name with
      | none => simp only [storeIn, hscope, ih]
      | some binding => simp only [storeIn, hscope, Scope.get?_set, if_true, Scope.set_set]

theorem storeIn_comm {name other : String} (hother : name ≠ other) (first second : Value)
    (scopes : List Scope) :
    storeIn other second (storeIn name first scopes) =
      storeIn name first (storeIn other second scopes) := by
  induction scopes with
  | nil => rfl
  | cons scope outer ih =>
      -- In a scope with both names the two places differ; otherwise the names part ways here.
      cases hname : scope.get? name with
      | none =>
          cases hbound : scope.get? other with
          | none => simp only [storeIn, hname, hbound, ih]
          | some found =>
              simp only [storeIn, hname, hbound, Scope.get?_set, if_neg hother]
      | some binding =>
          cases hbound : scope.get? other with
          | none =>
              simp only [storeIn, hname, hbound, Scope.get?_set, if_neg (Ne.symm hother)]
          | some found =>
              simp only [storeIn, hname, hbound, Scope.get?_set, if_neg hother,
                if_neg (Ne.symm hother)]
              rw [Scope.set_comm hother _ _ (by simp [hname]) (by simp [hbound])]

theorem store_store (environment : Environment) (name : String) (first second : Value) :
    (environment.store name first).store name second = environment.store name second :=
  congrArg mk (storeIn_storeIn name first second environment.scopes)

theorem store_comm {name other : String} (hother : name ≠ other) (environment : Environment)
    (first second : Value) :
    (environment.store name first).store other second =
      (environment.store other second).store name first :=
  congrArg mk (storeIn_comm hother first second environment.scopes)

/-! ### The innermost binding -/

/-- The binding of a name in the scope at the level; no scope further in binds the name. -/
structure Innermost (environment : Environment) (name : String) (level : Nat) (binding : Binding) :
    Prop where
  bound : environment.bindingAt? level name = some binding
  inner : ∀ place, level < place → environment.bindingAt? place name = none

theorem Innermost.congr {environment later : Environment} {name : String} {level : Nat}
    {binding : Binding} (hinnermost : environment.Innermost name level binding)
    (hsame : ∀ place, later.bindingAt? place name = environment.bindingAt? place name) :
    later.Innermost name level binding :=
  ⟨(hsame level).trans hinnermost.bound,
    fun place hplace => (hsame place).trans (hinnermost.inner place hplace)⟩

theorem bindingAt?_cons_of_none {scope : Scope} {name : String} (hscope : scope.get? name = none)
    (outer : List Scope) (level : Nat) :
    bindingAt? ⟨scope :: outer⟩ level name = bindingAt? ⟨outer⟩ level name := by
  rw [bindingAt?_cons]
  by_cases hlevel : level = outer.length
  · rw [if_pos hlevel, hscope]
    cases hbinding : bindingAt? ⟨outer⟩ level name with
    | none => rfl
    | some binding =>
        have hlt : level < outer.length := lt_depth_of_bindingAt? hbinding
        omega
  · rw [if_neg hlevel]

theorem innermost_cons_of_some {scope : Scope} {name : String} {found : Binding}
    (hscope : scope.get? name = some found) {outer : List Scope} {level : Nat} {binding : Binding} :
    Innermost ⟨scope :: outer⟩ name level binding ↔ level = outer.length ∧ binding = found := by
  constructor
  · rintro ⟨hbound, hinner⟩
    have hlevel : level = outer.length := by
      have hlt : level < outer.length + 1 := lt_depth_of_bindingAt? hbound
      by_contra hne
      have hnone := hinner outer.length (by omega)
      rw [bindingAt?_cons, if_pos rfl, hscope] at hnone
      cases hnone
    rw [bindingAt?_cons, if_pos hlevel, hscope] at hbound
    exact ⟨hlevel, (Option.some.inj hbound).symm⟩
  · rintro ⟨rfl, rfl⟩
    refine ⟨?_, fun place hplace => bindingAt?_eq_none hplace⟩
    rw [bindingAt?_cons, if_pos rfl, hscope]

/-- Looking a name up finds its innermost binding, and a store goes to its level. -/
theorem innermost_iff {environment : Environment} {name : String} {level : Nat}
    {binding : Binding} :
    environment.Innermost name level binding ↔
      environment.levelOf? name = some level ∧ environment.find? name = some binding := by
  obtain ⟨scopes⟩ := environment
  induction scopes with
  | nil =>
      refine iff_of_false ?_ (by simp [find?])
      rintro ⟨hbound, -⟩
      cases hbound
  | cons scope outer ih =>
      rw [find?_cons, levelOf?, levelIn]
      cases hscope : scope.get? name with
      | some found =>
          rw [innermost_cons_of_some hscope]
          simp [eq_comm]
      | none =>
          have hsame := bindingAt?_cons_of_none hscope outer
          have houter : Innermost ⟨scope :: outer⟩ name level binding ↔
              Innermost ⟨outer⟩ name level binding :=
            ⟨fun hinnermost => hinnermost.congr fun place => (hsame place).symm,
              fun hinnermost => hinnermost.congr hsame⟩
          rw [houter, ih]
          rfl

theorem exists_innermost {environment : Environment} {name : String} {binding : Binding}
    (hfind : environment.find? name = some binding) :
    ∃ level, environment.Innermost name level binding := by
  have hlevel := hfind
  rw [find?_eq_bindingAt?] at hlevel
  obtain ⟨level, hlevel, -⟩ := Option.bind_eq_some_iff.mp hlevel
  exact ⟨level, innermost_iff.mpr ⟨hlevel, hfind⟩⟩

/-- A lookup depends on the bindings of the name alone. -/
theorem find?_congr {environment later : Environment} {name : String}
    (hsame : ∀ place, later.bindingAt? place name = environment.bindingAt? place name) :
    later.find? name = environment.find? name := by
  refine Option.ext fun binding => ?_
  constructor
  · intro hfind
    obtain ⟨level, hinnermost⟩ := exists_innermost hfind
    exact (innermost_iff.mp (hinnermost.congr fun place => (hsame place).symm)).2
  · intro hfind
    obtain ⟨level, hinnermost⟩ := exists_innermost hfind
    exact (innermost_iff.mp (hinnermost.congr hsame)).2

theorem find?_eq_none_iff_bindingAt? {environment : Environment} {name : String} :
    environment.find? name = none ↔ ∀ level, environment.bindingAt? level name = none := by
  constructor
  · intro hfind level
    obtain ⟨scopes⟩ := environment
    induction scopes with
    | nil => rfl
    | cons scope outer ih =>
        rw [find?_cons, Option.or_eq_none_iff] at hfind
        obtain ⟨hscope, houter⟩ := hfind
        rw [bindingAt?_cons_of_none hscope]
        exact ih houter
  · intro hnone
    rw [Option.eq_none_iff_forall_ne_some]
    intro binding hfind
    obtain ⟨level, hinnermost⟩ := exists_innermost hfind
    exact absurd ((hnone level).symm.trans hinnermost.bound) (by simp)

theorem Innermost.store_self {environment : Environment} {name : String} {level : Nat}
    {binding : Binding} (hinnermost : environment.Innermost name level binding) (value : Value) :
    (environment.store name value).Innermost name level { binding with value } := by
  obtain ⟨hlevel, hfind⟩ := innermost_iff.mp hinnermost
  rw [innermost_iff, levelOf?_store, find?_store, if_pos rfl, hlevel, hfind]
  exact ⟨rfl, rfl⟩

theorem Innermost.store_of_ne {environment : Environment} {name other : String} {level : Nat}
    {binding : Binding} (hinnermost : environment.Innermost name level binding)
    (hother : name ≠ other) (value : Value) :
    (environment.store other value).Innermost name level binding := by
  rwa [innermost_iff, levelOf?_store, find?_store, if_neg hother, ← innermost_iff]

/-! ### One binding changed -/

/-- All bindings are the same but that of the name at the level, which is the given one. -/
structure ReboundAt (environment : Environment) (level : Nat) (name : String) (binding : Binding)
    (later : Environment) : Prop where
  depth : later.depth = environment.depth
  bindingAt (place : Nat) (other : String) :
    later.bindingAt? place other =
      if place = level ∧ other = name then some binding else environment.bindingAt? place other

theorem Innermost.reboundAt_store {environment : Environment} {name : String} {level : Nat}
    {binding : Binding} (hinnermost : environment.Innermost name level binding) (value : Value) :
    environment.ReboundAt level name { binding with value } (environment.store name value) := by
  have hlevel := (innermost_iff.mp hinnermost).1
  refine ⟨length_storeIn name value environment.scopes, fun place other => ?_⟩
  rw [bindingAt?_store_eq, hlevel]
  by_cases hplace : place = level ∧ other = name
  · obtain ⟨rfl, rfl⟩ := hplace
    rw [hinnermost.bound]
    simp
  · have hother : ¬(other = name ∧ some level = some place) := by
      rintro ⟨hname, hsame⟩
      exact hplace ⟨(Option.some.inj hsame).symm, hname⟩
    rw [if_neg hplace]
    simp only [hother, if_false, Option.map_id']

/-! ### Dropping scopes -/

theorem scopes_iterate_pop (environment : Environment) (count : Nat) :
    (pop^[count] environment).scopes = environment.scopes.drop count := by
  induction count generalizing environment with
  | zero => rfl
  | succ count ih =>
      rw [Function.iterate_succ_apply, ih, pop, List.drop_tail]

theorem bindingAt?_iterate_pop (environment : Environment) (count level : Nat) (name : String) :
    (pop^[count] environment).bindingAt? level name =
      if level + count < environment.depth then environment.bindingAt? level name else none := by
  rw [bindingAt?, scopes_iterate_pop, List.reverse_drop, List.getElem?_take, bindingAt?, depth]
  by_cases hlevel : level + count < environment.scopes.length
  · rw [if_pos hlevel, if_pos (by omega)]
  · rw [if_neg hlevel, if_neg (by omega)]
    rfl

section Rebound

variable {environment later : Environment} {level : Nat} {name : String} {old new : Binding}

theorem lookup_of_innermost {token : Token}
    (hinnermost : environment.Innermost token.lexeme level old) :
    environment.lookup token = .ok old := by
  rw [lookup, (innermost_iff.mp hinnermost).2]

theorem lookup_congr {token : Token} (hsame : ∀ place,
    later.bindingAt? place token.lexeme = environment.bindingAt? place token.lexeme) :
    later.lookup token = environment.lookup token := by
  rw [lookup, lookup, find?_congr hsame]

theorem ReboundAt.lookup_iterate_pop (hrebound : environment.ReboundAt level name new later)
    (hinnermost : environment.Innermost name level old) (count : Nat) (token : Token) :
    (pop^[count] later).lookup token =
      if token.lexeme = name ∧ level + count < environment.depth then .ok new
      else (pop^[count] environment).lookup token := by
  by_cases hseen : token.lexeme = name ∧ level + count < environment.depth
  · obtain ⟨rfl, hlevel⟩ := hseen
    have hlater : (pop^[count] later).Innermost token.lexeme level new := by
      refine ⟨?_, fun place hplace => ?_⟩
      · rw [bindingAt?_iterate_pop, hrebound.depth, if_pos hlevel, hrebound.bindingAt,
          if_pos ⟨rfl, rfl⟩]
      · have hnone : later.bindingAt? place token.lexeme = none := by
          rw [hrebound.bindingAt, if_neg (fun hsame => absurd hsame.1 (by omega)),
            hinnermost.inner place hplace]
        rw [bindingAt?_iterate_pop, hnone, ite_self]
    rw [if_pos ⟨rfl, hlevel⟩, lookup_of_innermost hlater]
  · rw [if_neg hseen]
    refine lookup_congr fun place => ?_
    rw [bindingAt?_iterate_pop, bindingAt?_iterate_pop, hrebound.depth, hrebound.bindingAt]
    by_cases hplace : place + count < environment.depth
    · rw [if_pos hplace, if_pos hplace, if_neg]
      rintro ⟨rfl, hname⟩
      exact hseen ⟨hname, hplace⟩
    · rw [if_neg hplace, if_neg hplace]

end Rebound

end Environment

/-! ### Outcomes -/

namespace Eval

section Outcomes

variable {environment : Environment} {name : Token} {value : Value} {level : Nat}
  {binding : Binding}

theorem run_assign_of_none
    (hnone : ∀ level, environment.bindingAt? level name.lexeme = none) :
    (assign name value).run environment =
      .error ⟨.undefinedVariable name.lexeme, name.line⟩ environment := by
  rw [run_assign, Environment.assign_of_none (Environment.find?_eq_none_iff_bindingAt?.mpr hnone)]

theorem run_assign_of_refused (hinnermost : environment.Innermost name.lexeme level binding)
    (hrefused : binding.type.admits value = false) :
    (assign name value).run environment =
      .error ⟨.typeMismatch name.lexeme binding.type, name.line⟩ environment := by
  have hfind := (Environment.innermost_iff.mp hinnermost).2
  rw [run_assign, Environment.assign_of_some hfind, if_neg (Bool.eq_false_iff.mp hrefused)]

theorem run_assign_of_admits (hinnermost : environment.Innermost name.lexeme level binding)
    (hadmits : binding.type.admits value = true) :
    (assign name value).run environment = .ok () (environment.store name.lexeme value) := by
  have hfind := (Environment.innermost_iff.mp hinnermost).2
  rw [run_assign, Environment.assign_of_some hfind, if_pos hadmits]

end Outcomes

/-- How an assignment ends. -/
inductive Assigns (environment : Environment) (name : Token) (value : Value) :
    EStateM.Result RuntimeError Environment Unit → Prop where
  | undefined (hnone : ∀ level, environment.bindingAt? level name.lexeme = none)
      (hlookup : environment.lookup name = .error ⟨.undefinedVariable name.lexeme, name.line⟩) :
      Assigns environment name value
        (.error ⟨.undefinedVariable name.lexeme, name.line⟩ environment)
  | refused {level : Nat} {binding : Binding}
      (hinnermost : environment.Innermost name.lexeme level binding)
      (hrefused : binding.type.admits value = false) :
      Assigns environment name value
        (.error ⟨.typeMismatch name.lexeme binding.type, name.line⟩ environment)
  | stored {level : Nat} {binding : Binding}
      (hinnermost : environment.Innermost name.lexeme level binding)
      (hadmits : binding.type.admits value = true) :
      Assigns environment name value (.ok () (environment.store name.lexeme value))

theorem assigns_assign (environment : Environment) (name : Token) (value : Value) :
    Assigns environment name value ((assign name value).run environment) := by
  cases hfind : environment.find? name.lexeme with
  | none =>
      have hnone := Environment.find?_eq_none_iff_bindingAt?.mp hfind
      rw [run_assign_of_none hnone]
      refine .undefined hnone ?_
      rw [Environment.lookup, hfind]
  | some binding =>
      obtain ⟨level, hinnermost⟩ := Environment.exists_innermost hfind
      cases hadmits : binding.type.admits value with
      | false =>
          rw [run_assign_of_refused hinnermost hadmits]
          exact .refused hinnermost hadmits
      | true =>
          rw [run_assign_of_admits hinnermost hadmits]
          exact .stored hinnermost hadmits

section Laws

variable {environment updated : Environment} {name : Token} {value : Value}

theorem exists_of_run_assign (hrun : (assign name value).run environment = .ok () updated) :
    ∃ level binding, environment.Innermost name.lexeme level binding ∧
      binding.type.admits value = true ∧ updated = environment.store name.lexeme value := by
  have hassigns := assigns_assign environment name value
  rw [hrun] at hassigns
  cases hassigns with
  | stored hinnermost hadmits => exact ⟨_, _, hinnermost, hadmits, rfl⟩

/-- A failed assignment changes nothing, and its error says what a lookup finds. -/
theorem cause_of_run_assign {error : RuntimeError} {after : Environment}
    (hrun : (assign name value).run environment = .error error after) :
    after = environment ∧
      (error = ⟨.undefinedVariable name.lexeme, name.line⟩ ∧
          environment.lookup name = .error error ∧
          (∀ level, environment.bindingAt? level name.lexeme = none) ∨
        ∃ level binding, environment.Innermost name.lexeme level binding ∧
          environment.lookup name = .ok binding ∧ binding.type.admits value = false ∧
          error = ⟨.typeMismatch name.lexeme binding.type, name.line⟩) := by
  have hassigns := assigns_assign environment name value
  rw [hrun] at hassigns
  cases hassigns with
  | undefined hnone hlookup => exact ⟨rfl, .inl ⟨rfl, hlookup, hnone⟩⟩
  | refused hinnermost hrefused =>
      exact ⟨rfl, .inr ⟨_, _, hinnermost, Environment.lookup_of_innermost hinnermost, hrefused,
        rfl⟩⟩

/-- A second assignment to the same name leaves what it would leave alone. -/
theorem run_assign_again (hrun : (assign name value).run environment = .ok () updated)
    {again : Token} (hagain : again.lexeme = name.lexeme) {second : Value} {final : Environment} :
    (assign again second).run updated = .ok () final ↔
      (assign again second).run environment = .ok () final := by
  obtain ⟨level, binding, hinnermost, -, rfl⟩ := exists_of_run_assign hrun
  rw [← hagain] at hinnermost ⊢
  have hafter := hinnermost.store_self value
  cases hadmits : binding.type.admits second with
  | false =>
      rw [run_assign_of_refused hinnermost hadmits, run_assign_of_refused hafter hadmits]
      exact iff_of_false (by simp) (by simp)
  | true =>
      rw [run_assign_of_admits hinnermost hadmits, run_assign_of_admits hafter hadmits,
        Environment.store_store]

/-- Assignments to different names can change places. -/
theorem run_assign_comm (hrun : (assign name value).run environment = .ok () updated)
    {other : Token} (hother : other.lexeme ≠ name.lexeme) {second : Value} {middle : Environment}
    (hsecond : (assign other second).run environment = .ok () middle) :
    ∃ final, (assign name value).run middle = .ok () final ∧
      (assign other second).run updated = .ok () final := by
  obtain ⟨level, binding, hinnermost, hadmits, rfl⟩ := exists_of_run_assign hrun
  obtain ⟨place, found, hfound, hsuits, rfl⟩ := exists_of_run_assign hsecond
  have hmiddle := hinnermost.store_of_ne (Ne.symm hother) second
  have hupdated := hfound.store_of_ne hother value
  refine ⟨_, run_assign_of_admits hmiddle hadmits, ?_⟩
  rw [run_assign_of_admits hupdated hsuits, Environment.store_comm (Ne.symm hother)]

/-- What is refused is also refused after an assignment to another name. -/
theorem run_assign_error_of_ne {error : RuntimeError} {after : Environment}
    (hrun : (assign name value).run environment = .error error after)
    {other : Token} (hother : other.lexeme ≠ name.lexeme) {second : Value} {middle : Environment}
    (hsecond : (assign other second).run environment = .ok () middle) :
    (assign name value).run middle = .error error middle := by
  obtain ⟨place, found, -, -, rfl⟩ := exists_of_run_assign hsecond
  have hassigns := assigns_assign environment name value
  rw [hrun] at hassigns
  cases hassigns with
  | undefined hnone _ =>
      refine run_assign_of_none fun level => ?_
      rw [Environment.bindingAt?_store_of_ne (fun hsame => absurd hsame.symm hother), hnone]
  | refused hinnermost hrefused =>
      exact run_assign_of_refused (hinnermost.store_of_ne (Ne.symm hother) second) hrefused

end Laws

/-- An assignment succeeds exactly if the innermost binding of the name admits the value. It then
changes the value of this binding and nothing else, as is also seen after scopes are dropped;
another assignment to the name leaves what it would leave alone, and one to another name can come
first. An assignment that fails changes nothing. Lookups find the same binding. -/
theorem assign_updates_innermost (environment : Environment) (name : Token) (value : Value) :
    ((∃ updated, (assign name value).run environment = .ok () updated) ↔
      ∃ level binding, environment.Innermost name.lexeme level binding ∧
        binding.type.admits value = true) ∧
    (∀ updated, (assign name value).run environment = .ok () updated →
      (∃ level binding, environment.Innermost name.lexeme level binding ∧
        environment.lookup name = .ok binding ∧
        updated.lookup name = .ok { binding with value } ∧
        environment.ReboundAt level name.lexeme { binding with value } updated ∧
        ∀ (count : Nat) (token : Token),
          (Environment.pop^[count] updated).lookup token =
            if token.lexeme = name.lexeme ∧ level + count < environment.depth then
              .ok { binding with value }
            else (Environment.pop^[count] environment).lookup token) ∧
      (∀ (again : Token) (second : Value) (final : Environment), again.lexeme = name.lexeme →
        ((assign again second).run updated = .ok () final ↔
          (assign again second).run environment = .ok () final)) ∧
      ∀ (other : Token) (second : Value) (middle : Environment), other.lexeme ≠ name.lexeme →
        (assign other second).run environment = .ok () middle →
          ∃ final, (assign name value).run middle = .ok () final ∧
            (assign other second).run updated = .ok () final) ∧
    ∀ error after, (assign name value).run environment = .error error after →
      after = environment ∧
      (error = ⟨.undefinedVariable name.lexeme, name.line⟩ ∧
          environment.lookup name = .error error ∧
          (∀ level, environment.bindingAt? level name.lexeme = none) ∨
        ∃ level binding, environment.Innermost name.lexeme level binding ∧
          environment.lookup name = .ok binding ∧ binding.type.admits value = false ∧
          error = ⟨.typeMismatch name.lexeme binding.type, name.line⟩) ∧
      ∀ (other : Token) (second : Value) (middle : Environment), other.lexeme ≠ name.lexeme →
        (assign other second).run environment = .ok () middle →
          (assign name value).run middle = .error error middle := by
  refine ⟨⟨?_, ?_⟩, fun updated hrun => ⟨?_, ?_, ?_⟩, fun error after hrun => ?_⟩
  · rintro ⟨updated, hrun⟩
    obtain ⟨level, binding, hinnermost, hadmits, -⟩ := exists_of_run_assign hrun
    exact ⟨level, binding, hinnermost, hadmits⟩
  · rintro ⟨level, binding, hinnermost, hadmits⟩
    exact ⟨_, run_assign_of_admits hinnermost hadmits⟩
  · obtain ⟨level, binding, hinnermost, -, rfl⟩ := exists_of_run_assign hrun
    have hrebound := hinnermost.reboundAt_store value
    exact ⟨level, binding, hinnermost, Environment.lookup_of_innermost hinnermost,
      Environment.lookup_of_innermost (hinnermost.store_self value), hrebound,
      hrebound.lookup_iterate_pop hinnermost⟩
  · exact fun again second final hagain => run_assign_again hrun hagain
  · exact fun other second middle hother => run_assign_comm hrun hother
  · obtain ⟨hafter, hcause⟩ := cause_of_run_assign hrun
    exact ⟨hafter, hcause, fun other second middle hother => run_assign_error_of_ne hrun hother⟩

/-- Three scopes, the outer two with an `n` of different types. -/
def layered : Environment :=
  ⟨[⟨[("b", ⟨.bool, .nil⟩)]⟩, ⟨[("n", ⟨.char, .nil⟩)]⟩, ⟨[("n", ⟨.int, .integer 1⟩)]⟩]⟩

theorem assign_updates_innermost_layered :
    let n : Token := ⟨.identifier, "n", 1, none⟩
    ∃ updated, (assign n (.char 'z')).run layered = .ok () updated ∧
      updated.lookup n = .ok ⟨.char, .char 'z'⟩ ∧
      (Environment.pop^[2] updated).lookup n = .ok ⟨.int, .integer 1⟩ ∧
      (assign n (.integer 2)).run layered = .error ⟨.typeMismatch "n" .char, 1⟩ layered := by
  intro n
  have hrun : (assign n (.char 'z')).run layered = .ok () (layered.store "n" (.char 'z')) := rfl
  obtain ⟨-, hstored, -⟩ := assign_updates_innermost layered n (.char 'z')
  obtain ⟨⟨level, binding, hinnermost, hlookup, hread, -, hpopped⟩, -⟩ := hstored _ hrun
  obtain rfl : ⟨.char, .nil⟩ = binding := Except.ok.inj hlookup
  obtain rfl : 1 = level := Option.some.inj (Environment.innermost_iff.mp hinnermost).1
  exact ⟨_, hrun, hread, hpopped 2 n, rfl⟩

end Eval

end BeginCode
