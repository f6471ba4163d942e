import BeginCode.Proofs.Moments
import BeginCode.Proofs.Phrase
import Mathlib.Data.List.Induction

/-!
# Static scopes

The scopes that are open at a place of a program, read off the program alone: an empty root scope,
the scope of the program block with the declarations before the place, and one scope for every body
and every `FOR` with an initializer around the place. A name is declared in one of them only by the
program block or by a `FOR` in whose loop the place lies.
-/

namespace BeginCode

/-- The names of a scope and their declared types. -/
abbrev Signature := String → Option ValueType

namespace Signature

def empty : Signature := fun _ => none

/-- A declaration replaces an earlier one of the same name. -/
def declare (signature : Signature) (type : ValueType) (name : String) : Signature :=
  fun other => if other = name then some type else signature other

/-- The scope that declarations make, one after the other. -/
def ofList (declared : List (ValueType × String)) : Signature :=
  declared.foldl (fun signature entry => signature.declare entry.1 entry.2) empty

theorem ofList_append_singleton (declared : List (ValueType × String)) (type : ValueType)
    (name : String) :
    ofList (declared ++ [(type, name)]) = (ofList declared).declare type name := by
  rw [ofList, List.foldl_append]
  rfl

theorem mem_of_ofList {declared : List (ValueType × String)} {name : String}
    (hname : ofList declared name ≠ none) : ∃ type, (type, name) ∈ declared := by
  induction declared using List.reverseRecOn with
  | nil => exact absurd rfl hname
  | append_singleton before entry ih =>
      obtain ⟨type, declaredName⟩ := entry
      rw [ofList_append_singleton] at hname
      by_cases heq : name = declaredName
      · subst heq
        exact ⟨type, by simp⟩
      · rw [declare, if_neg heq] at hname
        obtain ⟨found, hfound⟩ := ih hname
        exact ⟨found, List.mem_append_left _ hfound⟩

end Signature

/-- A name that no scope of a chain declares. -/
def Undeclared (scopes : List Signature) (name : String) : Prop :=
  ∀ signature ∈ scopes, signature name = none

/-- The loop variable, if the initializer of a `FOR` declares one. -/
def Initializer.signature : Initializer → Signature
  | declared type declarator => Signature.empty.declare type declarator.name.lexeme
  | expression _ => .empty

/-! ### The scopes at a place -/

mutual

/-- The scopes at a place of a phrase, the innermost one first, when it begins within `outer`. A
`FOR` with an initializer stands for a block of the initializer and a loop. -/
def Phrase.scopesAt (outer : List Signature) : Phrase → Place → List Signature
  | .conditional branch, place => branch.scopesAt outer place
  | .loop _ body _, .body :: place => body.scopesAt outer place
  | .forLoop none _ _ body _, .body :: place => body.scopesAt outer place
  | .forLoop (some _) _ _ _ _, .item 0 :: _ => .empty :: outer
  | .forLoop (some initializer) _ _ body _, .item 1 :: .body :: place =>
      body.scopesAt (initializer.signature :: outer) place
  | .forLoop (some initializer) _ _ _ _, .item 1 :: _ => initializer.signature :: outer
  | _, _ => outer

def Body.scopesAt (outer : List Signature) : Body → Place → List Signature
  | .mk phrases _, .item index :: place => Phrase.scopesAtItem (.empty :: outer) phrases index place
  | _, _ => outer

def Branch.scopesAt (outer : List Signature) : Branch → Place → List Signature
  | .mk _ body _ _, .thenBranch :: place => body.scopesAt outer place
  | .mk _ _ otherwise _, .elseBranch :: place => otherwise.scopesAt outer place
  | _, _ => outer

def Otherwise.scopesAt (outer : List Signature) : Otherwise → Place → List Signature
  | .nothing, _ => outer
  | .body body, place => body.scopesAt outer place
  | .chained branch, place => branch.scopesAt outer place

/-- The scopes at a place of the phrase with a number. After the last phrase of a body comes the
increment of a `FOR`. -/
def Phrase.scopesAtItem (scopes : List Signature) :
    List Phrase → Nat → Place → List Signature
  | [], _, _ => scopes
  | phrase :: _, 0, place => phrase.scopesAt scopes place
  | _ :: others, index + 1, place => Phrase.scopesAtItem scopes others index place

end

namespace Program.Source

/-- Every declared name with its type, in order. -/
def declarators (program : Source) : List (ValueType × Declarator) :=
  program.declarations.flatMap fun declaration =>
    (declaration.first :: declaration.others).map (declaration.type, ·)

def declared (program : Source) : List (ValueType × String) :=
  program.declarators.map fun entry => (entry.1, entry.2.name.lexeme)

/-- The scopes at a place of a program, the innermost one first. A declaration sees the declarations
before it, and a phrase sees all of them. -/
def scopesAt (program : Source) : Place → List Signature
  | .item index :: place =>
      if index < program.declared.length then
        [.ofList (program.declared.take index), .empty]
      else
        Phrase.scopesAtItem [.ofList program.declared, .empty] program.phrases
          (index - program.declared.length) place
  | _ => [.empty]

end Program.Source

/-! ### Where names are declared -/

/-- The place lies in the loop of a `FOR` that declares the name. -/
def Stmt.InLoopOf (statement : Stmt) (name : String) (place : Place) : Prop :=
  ∃ before after type token initializer condition body line outer,
    place = before ++ .item 1 :: after ∧
      statement.enters? before = some
        (.execute (.block [.declare type token initializer, .loop condition body line] outer)) ∧
      token.lexeme = name

/-- What lies in a loop of a part lies in a loop of the whole. -/
theorem Stmt.InLoopOf.down {parent child : Stmt} {name : String} {turn : Turn} {place : Place}
    (hloop : child.InLoopOf name place)
    (hchild : ∀ rest, parent.enters? (turn :: rest) = child.enters? rest) :
    parent.InLoopOf name (turn :: place) := by
  obtain ⟨before, after, type, token, initializer, condition, body, line, outer, rfl, hentry,
    hname⟩ := hloop
  refine ⟨turn :: before, after, type, token, initializer, condition, body, line, outer, rfl, ?_,
    hname⟩
  rw [hchild]
  exact hentry

theorem Stmt.enters?_item {body : List Stmt} {index : Nat} {child : Stmt}
    (hchild : body[index]? = some child) (line : Nat) (rest : Place) :
    (Stmt.block body line).enters? (.item index :: rest) = child.enters? rest := by
  rw [Stmt.enters?, hchild, Option.bind_some]

/-- The loop variable of a `FOR` is declared for its loop. -/
theorem Initializer.inLoopOf {initializer : Initializer} {name : String}
    (hname : initializer.signature name ≠ none) (condition : Expr) (body : Stmt)
    (line outer : Nat) (place : Place) :
    (Stmt.block [initializer.lower, .loop condition body line] outer).InLoopOf name
      (.item 1 :: place) := by
  cases initializer with
  | expression expr => exact absurd rfl hname
  | declared type declarator =>
      have heq : declarator.name.lexeme = name := by
        by_contra hne
        exact hname (if_neg fun heq => hne heq.symm)
      exact ⟨[], place, type, declarator.name, declarator.initializer, condition, body, line, outer,
        rfl, rfl, heq⟩

/-- A scope at a place is one of the outer ones, or declares nothing but loop variables for it. -/
def OuterOrLoop (outer : List Signature) (statement : Stmt) (place : Place)
    (signature : Signature) : Prop :=
  signature ∈ outer ∨ ∀ name, signature name ≠ none → statement.InLoopOf name place

theorem outerOrLoop_empty (outer : List Signature) (statement : Stmt) (place : Place) :
    OuterOrLoop outer statement place .empty :=
  .inr fun _ hname => absurd rfl hname

theorem Body.lowerWith_none (body : Body) : body.lowerWith none = body.lower := by
  obtain ⟨phrases, line⟩ := body
  rw [Body.lowerWith, Body.lower, Option.toList_none, List.map_nil, List.append_nil]

mutual

theorem Phrase.outerOrLoop {signature : Signature} :
    (phrase : Phrase) → (outer : List Signature) → (place : Place) →
      signature ∈ phrase.scopesAt outer place → OuterOrLoop outer phrase.lower place signature
  | .display _ _, _, _, hmem => .inl hmem
  | .scan _ _ _, _, _, hmem => .inl hmem
  | .expression _, _, _, hmem => .inl hmem
  | .conditional branch, outer, place, hmem => branch.outerOrLoop outer place hmem
  | .loop _ body _, outer, place, hmem => by
      rcases place with _ | ⟨turn, rest⟩
      · exact .inl hmem
      cases turn with
      | body =>
          rw [Phrase.lower, ← body.lowerWith_none]
          exact (body.outerOrLoop none outer rest hmem).imp id fun hloop name hname =>
            (hloop name hname).down fun _ => rfl
      | _ => exact .inl hmem
  | .forLoop none condition increment body line, outer, place, hmem => by
      rcases place with _ | ⟨turn, rest⟩
      · exact .inl hmem
      cases turn with
      | body =>
          exact (body.outerOrLoop increment outer rest hmem).imp id fun hloop name hname =>
            (hloop name hname).down fun _ => rfl
      | _ => exact .inl hmem
  | .forLoop (some initializer) condition increment body line, outer, place, hmem => by
      rcases place with _ | ⟨turn, rest⟩
      · exact .inl hmem
      cases turn with
      | item index =>
          -- The first item is the initializer, the second one the loop.
          match index with
          | 0 =>
              rcases List.mem_cons.mp hmem with rfl | hmem
              · exact outerOrLoop_empty _ _ _
              · exact .inl hmem
          | 1 =>
              have hinner : signature ∈ initializer.signature :: outer ∨
                  ∀ name, signature name ≠ none →
                    (Phrase.forLoop (some initializer) condition increment body
                      line).lower.InLoopOf name (.item 1 :: rest) := by
                rcases rest with _ | ⟨turn, rest⟩
                · exact .inl hmem
                cases turn with
                | body =>
                    exact (body.outerOrLoop increment _ rest hmem).imp id fun hloop name hname =>
                      ((hloop name hname).down fun _ => rfl).down fun _ => rfl
                | _ => exact .inl hmem
              rcases hinner with hmem | hloop
              · rcases List.mem_cons.mp hmem with rfl | hmem
                · exact .inr fun name hname => initializer.inLoopOf hname _ _ _ _ _
                · exact .inl hmem
              · exact .inr hloop
          | index + 2 => exact .inl hmem
      | _ => exact .inl hmem

theorem Body.outerOrLoop {signature : Signature} (increment : Option Expr) :
    (body : Body) → (outer : List Signature) → (place : Place) →
      signature ∈ body.scopesAt outer place →
        OuterOrLoop outer (body.lowerWith increment) place signature
  | .mk phrases line, outer, place, hmem => by
      rcases place with _ | ⟨turn, rest⟩
      · exact .inl hmem
      cases turn with
      | item index =>
          have hinner : signature ∈ Signature.empty :: outer ∨
              ∀ name, signature name ≠ none →
                (Body.lowerWith increment (.mk phrases line)).InLoopOf name
                  (.item index :: rest) := by
            rcases Phrase.outerOrLoop_item phrases _ index rest hmem with
              hmem | ⟨phrase, hphrase, hmem | hloop⟩
            · exact .inl hmem
            · exact .inl hmem
            · refine .inr fun name hname => (hloop name hname).down (Stmt.enters?_item ?_ line)
              rw [List.getElem?_append_left (List.getElem?_eq_some_iff.mp hphrase).1]
              exact hphrase
          rcases hinner with hmem | hloop
          · rcases List.mem_cons.mp hmem with rfl | hmem
            · exact outerOrLoop_empty _ _ _
            · exact .inl hmem
          · exact .inr hloop
      | _ => exact .inl hmem

theorem Branch.outerOrLoop {signature : Signature} :
    (branch : Branch) → (outer : List Signature) → (place : Place) →
      signature ∈ branch.scopesAt outer place → OuterOrLoop outer branch.lower place signature
  | .mk condition body otherwise line, outer, place, hmem => by
      rcases place with _ | ⟨turn, rest⟩
      · exact .inl hmem
      cases turn with
      | thenBranch =>
          rw [Branch.lower, ← body.lowerWith_none]
          exact (body.outerOrLoop none outer rest hmem).imp id fun hloop name hname =>
            (hloop name hname).down fun _ => rfl
      | elseBranch => exact otherwise.outerOrLoop outer rest hmem
      | _ => exact .inl hmem

theorem Otherwise.outerOrLoop {signature : Signature} {condition : Expr} {thenBranch : Stmt}
    {line : Nat} :
    (otherwise : Otherwise) → (outer : List Signature) → (place : Place) →
      signature ∈ otherwise.scopesAt outer place →
        OuterOrLoop outer (.conditional condition thenBranch otherwise.lower line)
          (.elseBranch :: place) signature
  | .nothing, _, _, hmem => .inl hmem
  | .body body, outer, place, hmem => by
      rw [Otherwise.lower, ← body.lowerWith_none]
      exact (body.outerOrLoop none outer place hmem).imp id fun hloop name hname =>
        (hloop name hname).down fun _ => rfl
  | .chained branch, outer, place, hmem =>
      (branch.outerOrLoop outer place hmem).imp id fun hloop name hname =>
        (hloop name hname).down fun _ => rfl

theorem Phrase.outerOrLoop_item {signature : Signature} :
    (phrases : List Phrase) → (scopes : List Signature) → (index : Nat) → (place : Place) →
      signature ∈ Phrase.scopesAtItem scopes phrases index place →
        signature ∈ scopes ∨ ∃ phrase, (Phrase.lowerAll phrases)[index]? = some phrase ∧
          OuterOrLoop scopes phrase place signature
  | [], _, _, _, hmem => .inl hmem
  | phrase :: _, scopes, 0, place, hmem =>
      .inr ⟨phrase.lower, rfl, phrase.outerOrLoop scopes place hmem⟩
  | _ :: others, scopes, index + 1, place, hmem =>
      Phrase.outerOrLoop_item others scopes index place hmem

end

namespace Program.Source

theorem statements_eq (program : Source) :
    program.statements = (program.declarators.map fun entry => entry.2.lower entry.1) ++
      Phrase.lowerAll program.phrases := by
  rw [statements, declarators, List.map_flatMap]
  congr 2
  funext declaration
  rw [Declaration.lower, List.map_map]
  rfl

theorem length_declared (program : Source) :
    program.declared.length = program.declarators.length := List.length_map _

/-- A name that is declared at a place is declared by the program block or by a `FOR` in whose loop
the place lies. -/
theorem declared_or_inLoopOf (program : Source) {place : Place} {signature : Signature}
    (hmem : signature ∈ program.scopesAt place) {name : String} (hname : signature name ≠ none) :
    (∃ type, (type, name) ∈ program.declared) ∨ program.lower.InLoopOf name place := by
  have hroot : signature ≠ .empty := by
    rintro rfl
    exact hname rfl
  rcases place with _ | ⟨turn, rest⟩
  · exact absurd (List.mem_singleton.mp hmem) hroot
  cases turn with
  | item index =>
      rw [scopesAt] at hmem
      by_cases hindex : index < program.declared.length
      · rw [if_pos hindex] at hmem
        obtain rfl : signature = .ofList (program.declared.take index) := by
          simpa [hroot] using hmem
        obtain ⟨type, htype⟩ := Signature.mem_of_ofList hname
        exact .inl ⟨type, List.mem_of_mem_take htype⟩
      · rw [if_neg hindex] at hmem
        have houter : signature ∈ [Signature.ofList program.declared, .empty] →
            ∃ type, (type, name) ∈ program.declared := by
          intro hmem
          obtain rfl : signature = .ofList program.declared := by simpa [hroot] using hmem
          exact Signature.mem_of_ofList hname
        rcases Phrase.outerOrLoop_item _ _ _ _ hmem with hmem | ⟨phrase, hphrase, hmem | hloop⟩
        · exact .inl (houter hmem)
        · exact .inl (houter hmem)
        · refine .inr ((hloop name hname).down (Stmt.enters?_item ?_ program.line))
          rw [statements_eq, List.getElem?_append_right] <;>
            rw [List.length_map, ← length_declared]
          · exact hphrase
          · omega
  | _ => exact absurd (List.mem_singleton.mp hmem) hroot

end Program.Source

end BeginCode
