import BeginCode.Proofs.TypeSafety

/-!
# Storing values

A name stands for its binding in the innermost scope that has one. Storing a value under the name
changes the value of that binding and nothing else: not its type, no binding of another name, and
not the bindings of the same name further out.
-/

namespace BeginCode.Environment

/-- How many scopes are around the innermost scope that binds the name. -/
def levelIn (name : String) : List Scope → Option Nat
  | [] => none
  | scope :: outer => if (scope.get? name).isSome then some outer.length else levelIn name outer

/-- The level of the scope in which a name is found. -/
def levelOf? (environment : Environment) (name : String) : Option Nat :=
  levelIn name environment.scopes

theorem find?_cons (scope : Scope) (outer : List Scope) (name : String) :
    find? ⟨scope :: outer⟩ name = (scope.get? name).or (find? ⟨outer⟩ name) := by
  unfold find?
  rw [List.findSome?_cons]
  cases scope.get? name <;> rfl

theorem levelIn_lt {name : String} {scopes : List Scope} {level : Nat}
    (hlevel : levelIn name scopes = some level) : level < scopes.length := by
  induction scopes with
  | nil => cases hlevel
  | cons scope outer ih =>
      rw [List.length_cons]
      rw [levelIn] at hlevel
      split at hlevel
      · have := Option.some.inj hlevel
        omega
      · have := ih hlevel
        omega

/-- A name is looked up at its level. -/
theorem find?_eq_bindingAt? (environment : Environment) (name : String) :
    environment.find? name =
      (environment.levelOf? name).bind fun level => environment.bindingAt? level name := by
  obtain ⟨scopes⟩ := environment
  induction scopes with
  | nil => rfl
  | cons scope outer ih =>
      rw [find?_cons, levelOf?, levelIn]
      cases hscope : scope.get? name with
      | some binding =>
          rw [Option.isSome_some, if_pos rfl, Option.bind_some, bindingAt?_cons, if_pos rfl, hscope]
          rfl
      | none =>
          rw [if_neg (by simp), Option.none_or, ih, levelOf?]
          cases hlevel : levelIn name outer with
          | none => rfl
          | some level =>
              have hlt := levelIn_lt hlevel
              rw [Option.bind_some, Option.bind_some, bindingAt?_cons, if_neg (by omega)]

theorem find?_store (environment : Environment) (name other : String) (value : Value) :
    (environment.store name value).find? other =
      if other = name then (environment.find? name).map fun binding => { binding with value }
      else environment.find? other := by
  obtain ⟨scopes⟩ := environment
  induction scopes with
  | nil =>
      by_cases hother : other = name
      · rw [if_pos hother]
        rfl
      · rw [if_neg hother]
        rfl
  | cons scope outer ih =>
      rw [store, storeIn, find?_cons, find?_cons]
      cases hscope : scope.get? name with
      | some binding =>
          dsimp only
          rw [find?_cons, Scope.get?_set]
          by_cases hother : other = name
          · rw [if_pos hother, if_pos hother]
            rfl
          · rw [if_neg hother, if_neg hother]
      | none =>
          dsimp only
          rw [find?_cons]
          by_cases hother : other = name
          · subst hother
            rw [if_pos rfl] at ih ⊢
            rw [hscope, Option.none_or, Option.none_or]
            exact ih
          · rw [if_neg hother] at ih ⊢
            exact congrArg (Option.or _) ih

/-- Every other binding is left alone. -/
theorem bindingAt?_store_of_ne {environment : Environment} {name other : String} {level : Nat}
    (hother : other = name → environment.levelOf? name ≠ some level) (value : Value) :
    (environment.store name value).bindingAt? level other =
      environment.bindingAt? level other := by
  obtain ⟨scopes⟩ := environment
  induction scopes with
  | nil => rfl
  | cons scope outer ih =>
      rw [levelOf?, levelIn] at hother
      rw [store, storeIn, bindingAt?_cons]
      cases hscope : scope.get? name with
      | some binding =>
          rw [hscope, Option.isSome_some, if_pos rfl] at hother
          dsimp only
          rw [bindingAt?_cons]
          by_cases hlevel : level = outer.length
          · rw [if_pos hlevel, if_pos hlevel, Scope.get?_set, if_neg]
            intro hname
            exact hother hname (congrArg some hlevel.symm)
          · rw [if_neg hlevel, if_neg hlevel]
      | none =>
          rw [hscope, if_neg (by simp)] at hother
          dsimp only
          rw [bindingAt?_cons, length_storeIn]
          by_cases hlevel : level = outer.length
          · rw [if_pos hlevel, if_pos hlevel]
          · rw [if_neg hlevel, if_neg hlevel]
            exact ih hother

theorem levelOf?_store (environment : Environment) (name other : String) (value : Value) :
    (environment.store name value).levelOf? other = environment.levelOf? other := by
  obtain ⟨scopes⟩ := environment
  induction scopes with
  | nil => rfl
  | cons scope outer ih =>
      rw [store, storeIn, levelOf?, levelOf?, levelIn]
      cases hscope : scope.get? name with
      | some binding =>
          dsimp only
          rw [levelIn, Scope.get?_set]
          by_cases hother : other = name
          · rw [if_pos hother, hother, hscope]
            rfl
          · rw [if_neg hother]
      | none =>
          dsimp only
          rw [levelIn, length_storeIn]
          exact congrArg (fun found => if (scope.get? other).isSome then _ else found) ih

/-- A store goes to the binding that the name is found in, and to no other one. -/
theorem bindingAt?_store_eq (environment : Environment) (name other : String) (value : Value)
    (level : Nat) :
    (environment.store name value).bindingAt? level other =
      (environment.bindingAt? level other).map fun binding =>
        if other = name ∧ environment.levelOf? name = some level then { binding with value }
        else binding := by
  by_cases hfound : other = name ∧ environment.levelOf? name = some level
  · obtain ⟨rfl, hlevel⟩ := hfound
    have hfind := find?_store environment other other value
    rw [if_pos rfl, find?_eq_bindingAt?, find?_eq_bindingAt?, levelOf?_store, hlevel,
      Option.bind_some, Option.bind_some] at hfind
    simp only [hfind, hlevel, and_self, if_true]
  · rw [bindingAt?_store_of_ne fun hother hlevel => hfound ⟨hother, hlevel⟩]
    simp only [hfound, if_false, Option.map_id']

/-! ### Several values -/

/-- Stores values one after another. -/
def storeAll (environment : Environment) (pairs : List (String × Value)) : Environment :=
  pairs.foldl (fun updated pair => updated.store pair.1 pair.2) environment

theorem storeAll_cons (environment : Environment) (name : String) (value : Value)
    (pairs : List (String × Value)) :
    environment.storeAll ((name, value) :: pairs) =
      (environment.store name value).storeAll pairs := rfl

@[simp]
theorem depth_storeAll (environment : Environment) (pairs : List (String × Value)) :
    (environment.storeAll pairs).depth = environment.depth := by
  induction pairs generalizing environment with
  | nil => rfl
  | cons pair pairs ih =>
      rw [storeAll_cons, ih]
      exact length_storeIn pair.1 pair.2 environment.scopes

theorem find?_storeAll_of_not_mem {pairs : List (String × Value)} {name : String}
    (hname : name ∉ pairs.map Prod.fst) (environment : Environment) :
    (environment.storeAll pairs).find? name = environment.find? name := by
  induction pairs generalizing environment with
  | nil => rfl
  | cons pair pairs ih =>
      rw [List.map_cons, List.mem_cons, not_or] at hname
      rw [storeAll_cons, ih hname.2, find?_store, if_neg hname.1]

/-- Of names that are all different, each one gets its own value. -/
theorem find?_storeAll_of_mem {pairs : List (String × Value)} {name : String} {value : Value}
    (hdistinct : (pairs.map Prod.fst).Nodup) (hmem : (name, value) ∈ pairs)
    (environment : Environment) :
    (environment.storeAll pairs).find? name =
      (environment.find? name).map fun binding => { binding with value } := by
  induction pairs generalizing environment with
  | nil => cases hmem
  | cons pair pairs ih =>
      rw [List.map_cons, List.nodup_cons] at hdistinct
      rw [storeAll_cons]
      rcases List.mem_cons.mp hmem with rfl | hmem
      · rw [find?_storeAll_of_not_mem hdistinct.1, find?_store, if_pos rfl]
      · have hne : name ≠ pair.1 := by
          intro hname
          exact hdistinct.1 (List.mem_map.mpr ⟨(name, value), hmem, hname⟩)
        rw [ih hdistinct.2 hmem, find?_store, if_neg hne]

theorem bindingAt?_storeAll {pairs : List (String × Value)} {environment : Environment}
    {level : Nat} {name : String}
    (hother : name ∈ pairs.map Prod.fst → environment.levelOf? name ≠ some level) :
    (environment.storeAll pairs).bindingAt? level name = environment.bindingAt? level name := by
  induction pairs generalizing environment with
  | nil => rfl
  | cons pair pairs ih =>
      rw [List.map_cons, List.mem_cons] at hother
      rw [storeAll_cons, ih, bindingAt?_store_of_ne]
      · rintro rfl
        exact hother (.inl rfl)
      · rw [levelOf?_store]
        intro hmem
        exact hother (.inr hmem)

end BeginCode.Environment
