import BeginCode.Proofs.ReadBack

/-!
# Reading a line into variables

A `SCAN` takes one line of input, whatever becomes of it. Its fields are assigned from left to right
up to the first one that its target refuses, so that a failing `SCAN` keeps the values before it.
Which one is refused can be told from the environment before the `SCAN`, because an assignment
changes neither the names nor their types.
-/

namespace BeginCode

/-! ### The line -/

namespace Console

/-- The first line of some bytes with its line end, or all of them if no line ends, and what comes
after it. -/
def FirstLine (bytes line rest : List UInt8) : Prop :=
  bytes = line ++ rest ∧ (IsLine line ∨ 10 ∉ line ∧ rest = [])

theorem takeLine_of_firstLine {console : Console} {line rest : List UInt8}
    (hfirst : FirstLine console.unread line rest) :
    console.takeLine = (line, { console with unread := rest }) := by
  obtain ⟨hunread, hline | ⟨hline, rfl⟩⟩ := hfirst
  · rw [← takeLine_of_isLine hline, ← hunread]
  · have hkeep : ∀ byte ∈ console.unread, decide (byte ≠ 10) = true := by
      intro byte hmem
      rw [hunread, List.append_nil] at hmem
      refine decide_eq_true fun heq => hline ?_
      rwa [← heq]
    unfold takeLine
    rw [List.dropWhile_eq_nil_iff.mpr hkeep, List.takeWhile_eq_self_iff.mpr hkeep]
    dsimp only
    rw [hunread, List.append_nil]

theorem decode?_eq_some_iff {bytes : List UInt8} {text : String} :
    decode? bytes = some text ↔ utf8 text = bytes := by
  constructor
  · intro hdecode
    unfold decode? String.fromUTF8? at hdecode
    split at hdecode
    · rw [← Option.some.inj hdecode]
      rfl
    · cases hdecode
  · rintro rfl
    exact decode?_utf8 text

end Console

namespace Text

theorem count_dropEnd {p : Char → Bool} {c : Char} (hkept : p c = false) (text : List Char) :
    (dropEnd p text).count c = text.count c := by
  have hdropped : c ∉ text.reverse.takeWhile p := by
    intro hmem
    rw [List.mem_takeWhile_imp hmem] at hkept
    cases hkept
  calc (dropEnd p text).count c
    _ = (text.reverse.dropWhile p).count c := List.count_reverse
    _ = (text.reverse.takeWhile p ++ text.reverse.dropWhile p).count c := by
        rw [List.count_append, List.count_eq_zero.mpr hdropped, Nat.zero_add]
    _ = text.count c := by rw [List.takeWhile_append_dropWhile, List.count_reverse]

/-- A line has one field more than commas. -/
theorem length_fields (line : List Char) : (fields line).length = line.count ',' + 1 := by
  rw [fields, List.length_map, length_splitAt, dropLineEnd, count_dropEnd (by decide)]

end Text

/-! ### The assignments -/

namespace Environment

/-- Why a variable does not take a value from an input line of the statement on line `line`. -/
def refusal? (environment : Environment) (line : Nat) (target : Token) (value : Value) :
    Option RuntimeError :=
  match environment.find? target.lexeme with
  | none => some ⟨.undefinedVariable target.lexeme, target.line⟩
  | some binding =>
      if binding.type.admits value then none
      else some ⟨.typeMismatch target.lexeme binding.type, line⟩

/-- Assigns to variables one after the other. -/
def assignEach (environment : Environment) (pairs : List (Token × Value)) :
    Except RuntimeError Environment :=
  pairs.foldlM (fun updated pair => updated.assign pair.1 pair.2) environment

/-- The last value that goes to a name. -/
def latest? (pairs : List (Token × Value)) (name : String) : Option Value :=
  (pairs.reverse.find? fun pair => pair.1.lexeme = name).map Prod.snd

/-- The second environment is the first one after the assignments: of the bindings that their names
are found in, each one has the last value for it, and nothing else is different. -/
structure Receives (before : Environment) (pairs : List (Token × Value)) (after : Environment) :
    Prop where
  assigned : before.assignEach pairs = .ok after
  depth : after.depth = before.depth
  bindings : ∀ level name, after.bindingAt? level name =
    (before.bindingAt? level name).map fun binding =>
      if before.levelOf? name = some level then
        { binding with value := (latest? pairs name).getD binding.value }
      else binding

open Exec (Suits)

variable {environment : Environment}

theorem refusal?_store (environment : Environment) (name : String) (stored : Value) (line : Nat)
    (target : Token) (value : Value) :
    (environment.store name stored).refusal? line target value =
      environment.refusal? line target value := by
  unfold refusal?
  rw [find?_store]
  by_cases hname : target.lexeme = name
  · rw [if_pos hname, hname]
    cases environment.find? name with
    | none => rfl
    | some binding => rfl
  · rw [if_neg hname]

theorem assign_eq_ok_iff {target : Token} {value : Value} {updated : Environment} :
    environment.assign target value = .ok updated ↔
      Suits environment target value ∧ updated = environment.store target.lexeme value := by
  unfold Suits
  cases hfind : environment.find? target.lexeme with
  | none => simp [assign_of_none hfind]
  | some binding =>
      rw [assign_of_some hfind]
      by_cases hadmits : binding.type.admits value = true
      · simp [hadmits, ValueType.admits_iff.mp hadmits, eq_comm]
      · simp [hadmits, ← ValueType.admits_iff]

theorem assignEach_cons {target : Token} {value : Value} {pairs : List (Token × Value)}
    {after : Environment} :
    environment.assignEach ((target, value) :: pairs) = .ok after ↔
      Suits environment target value ∧
        (environment.store target.lexeme value).assignEach pairs = .ok after := by
  rw [assignEach, List.foldlM_cons]
  constructor
  · intro hassigned
    cases hassign : environment.assign target value with
    | error error =>
        rw [hassign] at hassigned
        cases hassigned
    | ok updated =>
        rw [hassign] at hassigned
        obtain ⟨hsuits, rfl⟩ := assign_eq_ok_iff.mp hassign
        exact ⟨hsuits, hassigned⟩
  · rintro ⟨hsuits, hassigned⟩
    rw [assign_eq_ok_iff.mpr ⟨hsuits, rfl⟩]
    exact hassigned

/-- What is refused before the assignments is refused after them too. -/
theorem refusal?_of_assignEach {pairs : List (Token × Value)} {after : Environment}
    (hassigned : environment.assignEach pairs = .ok after) (line : Nat) (target : Token)
    (value : Value) :
    after.refusal? line target value = environment.refusal? line target value := by
  induction pairs generalizing environment with
  | nil =>
      cases hassigned
      rfl
  | cons pair pairs ih =>
      rw [ih (assignEach_cons.mp hassigned).2, refusal?_store]

theorem latest?_cons (target : Token) (value : Value) (pairs : List (Token × Value))
    (name : String) :
    latest? ((target, value) :: pairs) name =
      (latest? pairs name).or (if target.lexeme = name then some value else none) := by
  unfold latest?
  rw [List.reverse_cons, List.find?_append, Option.map_or]
  by_cases hname : target.lexeme = name
  · simp [hname]
  · simp [hname]

theorem Receives.cons {target : Token} {value : Value} {pairs : List (Token × Value)}
    {after : Environment} (hsuits : Suits environment target value)
    (hothers : (environment.store target.lexeme value).Receives pairs after) :
    environment.Receives ((target, value) :: pairs) after := by
  refine ⟨assignEach_cons.mpr ⟨hsuits, hothers.assigned⟩, ?_, fun level name => ?_⟩
  · rw [hothers.depth]
    exact length_storeIn _ _ _
  · rw [hothers.bindings, levelOf?_store, latest?_cons, bindingAt?_store_eq, Option.map_map]
    congr 1
    funext binding
    rw [Function.comp_apply]
    by_cases hlevel : environment.levelOf? name = some level
    · rw [if_pos hlevel, if_pos hlevel]
      by_cases hname : target.lexeme = name
      · rw [if_pos hname, if_pos ⟨hname.symm, hname ▸ hlevel⟩]
        cases latest? pairs name with
        | none => rfl
        | some last => rfl
      · rw [if_neg hname, if_neg fun hboth => hname hboth.1.symm, Option.or_none]
    · rw [if_neg hlevel, if_neg hlevel, if_neg]
      rintro ⟨rfl, hfound⟩
      exact hlevel hfound

end Environment

/-! ### The statement -/

namespace Exec

/-- What a `SCAN` on line `line` makes of the bytes of one line of input, which `world` has already
lost. -/
inductive Answers (targets : List Token) (line : Nat) (bytes : List UInt8) (world : World) :
    EStateM.Result Stop World Unit → Prop where
  | unreadable (hbytes : ∀ text, Console.utf8 text ≠ bytes) :
      Answers targets line bytes world
        (.error (.fault ⟨.inputOutput "stream did not contain valid UTF-8", line⟩) world)
  | miscounted {text : String} (hbytes : Console.utf8 text = bytes)
      (hcount : text.toList.count ',' + 1 ≠ targets.length) :
      Answers targets line bytes world
        (.error (.fault ⟨.scanFieldCount targets.length (text.toList.count ',' + 1), line⟩) world)
  | refused {text : String} {values : List Value} {k : Nat} {target : Token} {value : Value}
      {error : RuntimeError} {after : Environment} (hbytes : Console.utf8 text = bytes)
      (hvalues : (Text.fields text.toList).map Value.ofField = values)
      (hcount : text.toList.count ',' + 1 = targets.length)
      (hbefore : ∀ pair ∈ (targets.zip values).take k,
        world.environment.refusal? line pair.1 pair.2 = none)
      (hat : (targets.zip values)[k]? = some (target, value))
      (hrefused : world.environment.refusal? line target value = some error)
      (hafter : world.environment.Receives ((targets.zip values).take k) after) :
      Answers targets line bytes world
        (.error (.fault error) { world with environment := after })
  | complete {text : String} {values : List Value} {after : Environment}
      (hbytes : Console.utf8 text = bytes)
      (hvalues : (Text.fields text.toList).map Value.ofField = values)
      (hcount : text.toList.count ',' + 1 = targets.length)
      (htaken : ∀ pair ∈ targets.zip values,
        world.environment.refusal? line pair.1 pair.2 = none)
      (hafter : world.environment.Receives (targets.zip values) after) :
      Answers targets line bytes world (.ok () { world with environment := after })

theorem run_assignField_of_refusal {world : World} {target : Token} {field : List Char}
    {line : Nat} {error : RuntimeError}
    (hrefused : world.environment.refusal? line target (Value.ofField field) = some error) :
    (assignField target field line).run world = .error (.fault error) world := by
  unfold Environment.refusal? at hrefused
  rw [assignField, EStateM.run_bind, run_ofEval, Eval.run_lookup, Environment.lookup]
  cases hfind : world.environment.find? target.lexeme with
  | none =>
      rw [hfind] at hrefused
      cases hrefused
      rfl
  | some binding =>
      rw [hfind] at hrefused
      dsimp only at hrefused ⊢
      split at hrefused
      · cases hrefused
      · rename_i hadmits
        cases hrefused
        rw [if_neg hadmits]
        rfl

/-- The fields that are taken are assigned before the others are looked at. -/
theorem run_assignFields_append {world : World} {taken others : List (Token × List Char)}
    {after : Environment}
    (hassigned : world.environment.assignEach (taken.map (Prod.map id Value.ofField)) = .ok after)
    (line : Nat) :
    (assignFields line (taken ++ others)).run world =
      (assignFields line others).run { world with environment := after } := by
  induction taken generalizing world with
  | nil =>
      cases hassigned
      rfl
  | cons pair taken ih =>
      obtain ⟨hsuits, hassigned⟩ := Environment.assignEach_cons.mp hassigned
      rw [id] at hsuits
      rw [List.cons_append, assignFields, EStateM.run_bind, run_assignField hsuits]
      exact ih hassigned

/-- The field that is refused is the last one that is looked at. -/
theorem run_assignFields_of_refusal {world : World} {pairs : List (Token × List Char)} {k : Nat}
    {target : Token} {field : List Char} {line : Nat} {error : RuntimeError}
    {after : Environment}
    (hassigned : world.environment.assignEach ((pairs.take k).map (Prod.map id Value.ofField)) =
      .ok after)
    (hat : pairs[k]? = some (target, field))
    (hrefused : world.environment.refusal? line target (Value.ofField field) = some error) :
    (assignFields line pairs).run world =
      .error (.fault error) { world with environment := after } := by
  obtain ⟨hk, hat⟩ := List.getElem?_eq_some_iff.mp hat
  have hpairs : pairs = pairs.take k ++ (target, field) :: pairs.drop (k + 1) := by
    rw [← hat, ← List.drop_eq_getElem_cons hk, List.take_append_drop]
  have hstop : (assignField target field line).run { world with environment := after } =
      .error (.fault error) { world with environment := after } := by
    apply run_assignField_of_refusal
    rw [Environment.refusal?_of_assignEach hassigned, hrefused]
  rw [hpairs, run_assignFields_append hassigned, assignFields, EStateM.run_bind, hstop]

theorem run_scan_of_decode {world : World} {targets : List Token} {bytes rest : List UInt8}
    {text : String} (hfirst : Console.FirstLine world.console.unread bytes rest)
    (hbytes : Console.utf8 text = bytes) (line : Nat) :
    (scan targets line).run world =
      (if text.toList.count ',' + 1 = targets.length then
        assignFields line (targets.zip (Text.fields text.toList))
      else
        fault (.scanFieldCount targets.length (text.toList.count ',' + 1)) line).run
          { world with console := { world.console with unread := rest } } := by
  rw [scan, EStateM.run_bind, run_takeLine, Console.takeLine_of_firstLine hfirst]
  dsimp only
  rw [Console.decode?_eq_some_iff.mpr hbytes]
  dsimp only
  rw [Text.length_fields]

/-- A `SCAN` does what the first line of the input says. -/
theorem Answers.run_scan {world : World} {targets : List Token} {line : Nat}
    {bytes rest : List UInt8} {result : EStateM.Result Stop World Unit}
    (hfirst : Console.FirstLine world.console.unread bytes rest)
    (hanswers : Answers targets line bytes
      { world with console := { world.console with unread := rest } } result) :
    (scan targets line).run world = result := by
  cases hanswers with
  | unreadable hbytes =>
      have hdecode : Console.decode? bytes = none := by
        rw [Option.eq_none_iff_forall_ne_some]
        exact fun text hsome => hbytes text (Console.decode?_eq_some_iff.mp hsome)
      rw [scan, EStateM.run_bind, run_takeLine, Console.takeLine_of_firstLine hfirst]
      dsimp only
      rw [hdecode]
      rfl
  | miscounted hbytes hcount =>
      rw [run_scan_of_decode hfirst hbytes, if_neg hcount]
      rfl
  | refused hbytes hvalues hcount hbefore hat hrefused hafter =>
      subst hvalues
      rw [List.zip_map_right] at hat hafter
      rw [List.getElem?_map, Option.map_eq_some_iff] at hat
      obtain ⟨⟨target, field⟩, hat, ⟨⟩⟩ := hat
      have hassigned := hafter.assigned
      rw [← List.map_take] at hassigned
      rw [run_scan_of_decode hfirst hbytes, if_pos hcount]
      exact run_assignFields_of_refusal hassigned hat hrefused
  | complete hbytes hvalues hcount htaken hafter =>
      subst hvalues
      rw [run_scan_of_decode hfirst hbytes, if_pos hcount]
      have hassigned := hafter.assigned
      rw [List.zip_map_right] at hassigned
      have hrun := @run_assignFields_append _ _ [] _ hassigned line
      rw [List.append_nil] at hrun
      exact hrun

/-- The first field is kept although the second one is refused; the third one is not reached. -/
example :
    let n : Token := ⟨.identifier, "n", 1, none⟩
    let b : Token := ⟨.identifier, "b", 1, none⟩
    (scan [n, b, n] 2).run
        ⟨⟨[⟨[("n", ⟨.int, .nil⟩), ("b", ⟨.bool, .nil⟩)]⟩]⟩,
          ⟨Console.utf8 "7,x,8\nnext", [], none⟩⟩ =
      .error (.fault ⟨.typeMismatch "b" .bool, 2⟩)
        ⟨⟨[⟨[("n", ⟨.int, .integer 7⟩), ("b", ⟨.bool, .nil⟩)]⟩]⟩,
          ⟨Console.utf8 "next", [], none⟩⟩ := by
  rfl

end Exec

end BeginCode
