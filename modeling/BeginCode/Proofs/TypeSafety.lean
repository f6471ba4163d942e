import BeginCode.Proofs.Moments

/-!
# Declared types are kept

Whatever is asked of the evaluator, and whether it succeeds or fails, a variable holds nil or a
value of its declared type. The type of a variable changes only when it is declared again in its own
scope, and a variable that has a value becomes nil only in that way.
-/

namespace BeginCode

/-- Nothing, or a value that the declared type admits. -/
def Binding.WellTyped (binding : Binding) : Prop :=
  binding.value = .nil ∨ binding.type.admits binding.value = true

namespace Environment

/-- The binding of a name in the scope with `level` scopes around it. -/
def bindingAt? (environment : Environment) (level : Nat) (name : String) : Option Binding :=
  (environment.scopes.reverse[level]?).bind (·.get? name)

/-- Every binding in every scope is well typed. -/
def WellTyped (environment : Environment) : Prop :=
  ∀ level name binding, environment.bindingAt? level name = some binding → binding.WellTyped

theorem wellTyped_root : root.WellTyped := by
  intro level name binding hbinding
  cases level with
  | zero => cases hbinding
  | succ level => cases hbinding

/-! ### The bindings of a changed environment -/

theorem bindingAt?_cons (scope : Scope) (outer : List Scope) (level : Nat) (name : String) :
    bindingAt? ⟨scope :: outer⟩ level name =
      if level = outer.length then scope.get? name else bindingAt? ⟨outer⟩ level name := by
  unfold bindingAt?
  rw [List.reverse_cons]
  by_cases hlevel : level = outer.length
  · rw [if_pos hlevel, List.getElem?_append_right (by simp [hlevel])]
    simp [hlevel]
  · rw [if_neg hlevel]
    by_cases hlt : level < outer.length
    · rw [List.getElem?_append_left (by simpa using hlt)]
    · rw [List.getElem?_eq_none (by simp; omega), List.getElem?_eq_none (by simp; omega)]

theorem bindingAt?_push {environment : Environment} {level : Nat} {name : String}
    {binding : Binding} (hbinding : environment.push.bindingAt? level name = some binding) :
    environment.bindingAt? level name = some binding := by
  rw [push, bindingAt?_cons] at hbinding
  by_cases hlevel : level = environment.scopes.length
  · rw [if_pos hlevel, Scope.get?_empty] at hbinding
    cases hbinding
  · rwa [if_neg hlevel] at hbinding

theorem lt_depth_of_bindingAt? {environment : Environment} {level : Nat} {name : String}
    {binding : Binding} (hbinding : environment.bindingAt? level name = some binding) :
    level < environment.depth := by
  obtain ⟨scope, hscope, -⟩ := Option.bind_eq_some_iff.mp hbinding
  have hlt := (List.getElem?_eq_some_iff.mp hscope).1
  rwa [List.length_reverse] at hlt

theorem bindingAt?_pop {environment : Environment} {level : Nat} {name : String}
    {binding : Binding} (hbinding : environment.pop.bindingAt? level name = some binding) :
    environment.bindingAt? level name = some binding := by
  obtain ⟨scopes⟩ := environment
  cases scopes with
  | nil => exact hbinding
  | cons scope outer =>
      have hlt : level < outer.length := lt_depth_of_bindingAt? hbinding
      rw [bindingAt?_cons, if_neg (by omega)]
      exact hbinding

theorem bindingAt?_define {environment : Environment} {level : Nat} {name other : String}
    {defined binding : Binding}
    (hbinding : (environment.define other defined).bindingAt? level name = some binding) :
    environment.bindingAt? level name = some binding ∨
      level + 1 = environment.depth ∧ name = other ∧ binding = defined := by
  obtain ⟨scopes⟩ := environment
  cases scopes with
  | nil => exact .inl hbinding
  | cons scope outer =>
      rw [define, bindingAt?_cons] at hbinding
      rw [bindingAt?_cons]
      by_cases hlevel : level = outer.length
      · rw [if_pos hlevel, Scope.get?_set] at hbinding
        rw [if_pos hlevel]
        by_cases hname : name = other
        · rw [if_pos hname] at hbinding
          exact .inr ⟨congrArg (· + 1) hlevel, hname, (Option.some.inj hbinding).symm⟩
        · rw [if_neg hname] at hbinding
          exact .inl hbinding
      · rw [if_neg hlevel] at hbinding ⊢
        exact .inl hbinding

theorem length_storeIn (name : String) (value : Value) (scopes : List Scope) :
    (storeIn name value scopes).length = scopes.length := by
  induction scopes with
  | nil => rfl
  | cons scope outer ih =>
      rw [storeIn]
      cases scope.get? name with
      | none => exact congrArg (· + 1) ih
      | some binding => rfl

/-- A new value goes to the innermost binding of the name and keeps its type. -/
theorem bindingAt?_store {environment : Environment} {level : Nat} {name other : String}
    {value : Value} {binding : Binding}
    (hbinding : (environment.store other value).bindingAt? level name = some binding) :
    environment.bindingAt? level name = some binding ∨
      ∃ old, environment.find? other = some old ∧ name = other ∧
        environment.bindingAt? level name = some old ∧ binding = { old with value } := by
  obtain ⟨scopes⟩ := environment
  induction scopes with
  | nil => exact .inl hbinding
  | cons scope outer ih =>
      have hfind : find? ⟨scope :: outer⟩ other = (scope.get? other).or (find? ⟨outer⟩ other) := by
        unfold find?
        rw [List.findSome?_cons]
        cases scope.get? other with
        | none => rfl
        | some found => rfl
      rw [store, storeIn] at hbinding
      rw [bindingAt?_cons, hfind]
      cases hscope : scope.get? other with
      | some found =>
          rw [hscope] at hbinding
          dsimp only at hbinding
          rw [bindingAt?_cons, Scope.get?_set] at hbinding
          by_cases hlevel : level = outer.length
          · rw [if_pos hlevel] at hbinding ⊢
            by_cases hname : name = other
            · rw [if_pos hname] at hbinding
              refine .inr ⟨found, rfl, hname, ?_, (Option.some.inj hbinding).symm⟩
              rw [hname, hscope]
            · rw [if_neg hname] at hbinding
              exact .inl hbinding
          · rw [if_neg hlevel] at hbinding ⊢
            exact .inl hbinding
      | none =>
          rw [hscope] at hbinding
          dsimp only at hbinding
          rw [bindingAt?_cons, length_storeIn] at hbinding
          by_cases hlevel : level = outer.length
          · rw [if_pos hlevel] at hbinding ⊢
            exact .inl hbinding
          · rw [if_neg hlevel] at hbinding ⊢
            exact ih hbinding

end Environment

/-! ### One moment -/

/-- A binding is there already, or it is new by a declaration in the innermost scope, or it has a
new value by an assignment. -/
theorem Event.Leads.bindingAt?_cases {event : Event} {before after : Environment}
    (hleads : event.Leads before after) {level : Nat} {name : String} {new : Binding}
    (hnew : after.bindingAt? level name = some new) :
    before.bindingAt? level name = some new ∨
      (event = .declare new.type name ∧ level + 1 = before.depth ∧ new.WellTyped) ∨
        ∃ old, before.bindingAt? level name = some old ∧ new.type = old.type ∧
          new.type.admits new.value = true := by
  cases event with
  | start => exact hleads.elim
  | execute statement =>
      obtain rfl : after = before := hleads
      exact .inl hnew
  | evaluate expr =>
      obtain rfl : after = before := hleads
      exact .inl hnew
  | push =>
      obtain rfl : after = before.push := hleads
      exact .inl (Environment.bindingAt?_push hnew)
  | pop =>
      obtain rfl : after = before.pop := hleads
      exact .inl (Environment.bindingAt?_pop hnew)
  | declare type declared =>
      obtain ⟨value, hvalue, rfl⟩ := hleads
      rcases Environment.bindingAt?_define hnew with hkept | ⟨hlevel, rfl, rfl⟩
      · exact .inl hkept
      · exact .inr (.inl ⟨rfl, hlevel, hvalue⟩)
  | assign assigned =>
      obtain ⟨binding, value, hfind, hadmits, rfl⟩ := hleads
      rcases Environment.bindingAt?_store hnew with hkept | ⟨old, hold, rfl, hat, rfl⟩
      · exact .inl hkept
      · obtain rfl : binding = old := Option.some.inj (hfind.symm.trans hold)
        exact .inr (.inr ⟨binding, hat, rfl, hadmits⟩)

theorem Event.Leads.wellTyped {event : Event} {before after : Environment}
    (hleads : event.Leads before after) (hbefore : before.WellTyped) : after.WellTyped := by
  intro level name new hnew
  rcases hleads.bindingAt?_cases hnew with hkept | ⟨-, -, hdeclared⟩ | ⟨old, -, -, hadmits⟩
  · exact hbefore level name new hkept
  · exact hdeclared
  · exact .inr hadmits

/-- A binding keeps its type, and its value if it has one, unless it is declared again. -/
theorem Event.Leads.keeps_binding {event : Event} {before after : Environment}
    (hleads : event.Leads before after) {level : Nat} {name : String} {old new : Binding}
    (hold : before.bindingAt? level name = some old)
    (hnew : after.bindingAt? level name = some new) :
    (new.type = old.type ∧ (old.value ≠ .nil → new.value ≠ .nil)) ∨
      (event = .declare new.type name ∧ level + 1 = before.depth) := by
  rcases hleads.bindingAt?_cases hnew with
    hkept | ⟨hevent, hlevel, -⟩ | ⟨kept, hkept, htype, hadmits⟩
  · obtain rfl : old = new := Option.some.inj (hold.symm.trans hkept)
    exact .inl ⟨rfl, id⟩
  · exact .inr ⟨hevent, hlevel⟩
  · obtain rfl : old = kept := Option.some.inj (hold.symm.trans hkept)
    refine .inl ⟨htype, fun _ hnil => ?_⟩
    rw [hnil, ValueType.not_admits_nil] at hadmits
    cases hadmits

/-! ### Whole runs -/

theorem Trace.Grows.wellTyped {entered : Place → Option Event} {trace later : Trace}
    (hgrows : trace.Grows entered later) (hcurrent : trace.world.environment.WellTyped)
    (htrace : ∀ moment ∈ trace.moments, moment.environment.WellTyped) :
    later.world.environment.WellTyped ∧
      ∀ moment ∈ later.moments, moment.environment.WellTyped := by
  induction hgrows with
  | refl => exact ⟨hcurrent, htrace⟩
  | console _ _ ih => exact ih
  | moment _ hleads _ ih =>
      obtain ⟨hworld, hmoments⟩ := ih
      have hafter := hleads.wellTyped hworld
      refine ⟨hafter, fun moment hmem => ?_⟩
      rcases List.mem_append.mp hmem with hmem | hmem
      · exact hmoments moment hmem
      · rw [List.mem_singleton.mp hmem]
        exact hafter

namespace Call

theorem grows_start (bound : Nat) (calls : List Call) (console : Console) :
    (Trace.start console).Grows (entersIn? calls) (traceAll bound 0 calls (.start console)) := by
  apply grows_traceAll
  intro number rest
  rw [Nat.zero_add]
  rfl

/-- Through any calls, failed ones included, all bindings stay well typed, and from one moment to
the next a binding changes its type or loses its value only by a declaration in its own scope. -/
theorem declared_types_kept (bound : Nat) (calls : List Call) (console : Console) :
    (traceAll bound 0 calls (.start console)).world = runAll bound calls { console } ∧
    (runAll bound calls { console }).environment.WellTyped ∧
    (traceAll bound 0 calls (.start console)).Current ∧
    (∀ moment ∈ (traceAll bound 0 calls (.start console)).moments,
      moment.environment.WellTyped) ∧
    ∀ before after, [before, after] <:+: (traceAll bound 0 calls (.start console)).moments →
      ∀ level name old new,
        before.environment.bindingAt? level name = some old →
        after.environment.bindingAt? level name = some new →
          (new.type = old.type ∧ (old.value ≠ .nil → new.value ≠ .nil)) ∨
          (after.event = .declare new.type name ∧ level + 1 = before.environment.depth ∧
            ∃ token initializer, token.lexeme = name ∧
              entersIn? calls after.place =
                some (.execute (.declare new.type token initializer))) := by
  have hgrows := grows_start bound calls console
  have hworld := world_traceAll bound 0 calls (.start console)
  have hmoments : ∀ moment ∈ (Trace.start console).moments, moment.environment.WellTyped := by
    intro moment hmem
    rw [List.mem_singleton.mp hmem]
    exact Environment.wellTyped_root
  obtain ⟨hlast, htyped⟩ := hgrows.wellTyped Environment.wellTyped_root hmoments
  have hconnected := hgrows.connected rfl (List.isChain_singleton _)
  refine ⟨hworld, hworld ▸ hlast, hgrows.current rfl, htyped, ?_⟩
  intro before after hinfix level name old new hold hnew
  have hpair := hconnected.infix hinfix
  have hleads : after.event.Leads before.environment after.environment :=
    List.isChain_pair.mp hpair
  refine (hleads.keeps_binding hold hnew).imp id ?_
  rintro ⟨hevent, hlevel⟩
  refine ⟨hevent, hlevel, ?_⟩
  have hmem := hinfix.subset (List.mem_cons_of_mem _ (List.mem_singleton_self after))
  rcases hgrows.arises hmem with hstart | harises
  · rw [List.mem_singleton.mp hstart] at hevent
    cases hevent
  · rw [hevent] at harises
    obtain ⟨token, initializer, hentered, hname⟩ := harises
    exact ⟨token, initializer, hname, hentered⟩

/-- Declares `n`, fails to make it nil, hides it in a block that fails and declares it anew. -/
def redeclaring : List Call :=
  let n : Token := ⟨.identifier, "n", 1, none⟩
  [.execute (.declare .int n (some (.literal (.integer 1) 1))),
    .evaluate (.assign n (.literal .nil 2)),
    .executeBlock [.declare .bool n none, .assignAll [n] [none] 3],
    .execute (.declare .char n none)]

theorem declared_types_kept_redeclaring :
    ∃ before after,
      [before, after] <:+: (traceAll 1 0 redeclaring (.start ⟨[], [], none⟩)).moments ∧
      before.environment.bindingAt? 0 "n" = some ⟨.int, .integer 1⟩ ∧
      after.environment.bindingAt? 0 "n" = some ⟨.char, .nil⟩ ∧
      after.event = .declare .char "n" := by
  let n : Token := ⟨.identifier, "n", 1, none⟩
  let before : Moment :=
    ⟨[.item 3], .execute (.declare .char n none), ⟨[⟨[("n", ⟨.int, .integer 1⟩)]⟩]⟩⟩
  let after : Moment := ⟨[.item 3], .declare .char "n", ⟨[⟨[("n", ⟨.char, .nil⟩)]⟩]⟩⟩
  have hinfix : [before, after] <:+:
      (traceAll 1 0 redeclaring (.start ⟨[], [], none⟩)).moments :=
    ⟨(traceAll 1 0 redeclaring (.start ⟨[], [], none⟩)).moments.take 11, [], by rfl⟩
  have hbefore : before.environment.bindingAt? 0 "n" = some ⟨.int, .integer 1⟩ := by decide
  have hafter : after.environment.bindingAt? 0 "n" = some ⟨.char, .nil⟩ := by decide
  obtain ⟨-, -, -, -, hkept⟩ := declared_types_kept 1 redeclaring ⟨[], [], none⟩
  rcases hkept before after hinfix 0 "n" _ _ hbefore hafter with ⟨htype, -⟩ | ⟨hevent, -⟩
  · cases htype
  · exact ⟨before, after, hinfix, hbefore, hafter, hevent⟩

end Call

end BeginCode
