import BeginCode.Proofs.ProgramReading

/-!
# The shape of programs

A program that is read without a report is one block of declarations and executable statements.
Below it a declaration stands only in front of the loop of a `FOR`, and no statement assigns to
several variables.
-/

namespace BeginCode

namespace Stmt

/-- The statements directly below a statement. -/
def children : Stmt → List Stmt
  | block body _ => body
  | conditional _ thenBranch elseBranch _ => thenBranch :: elseBranch.toList
  | loop _ body _ => [body]
  | _ => []

/-- A statement is within itself and within everything above it. -/
inductive Within (inner : Stmt) : Stmt → Prop where
  | self : Within inner inner
  | inside {outer child : Stmt} (hchild : child ∈ outer.children) (hwithin : Within inner child) :
      Within inner outer

def isDeclaration : Stmt → Bool
  | declare _ _ _ => true
  | _ => false

def isAssignAll : Stmt → Bool
  | assignAll _ _ _ => true
  | _ => false

/-- The block around a loop and the statement that is executed once before it. -/
def WrapsLoopOf (wrapper first : Stmt) : Prop :=
  ∃ condition body line outer, wrapper = .block [first, .loop condition body line] outer

/-- What phrases become: no assignment to several variables, and declarations only in front of the
loop of a `FOR`. -/
structure Lowered (statement : Stmt) : Prop where
  isAssignAll : ∀ inner : Stmt, inner.Within statement → inner.isAssignAll = false
  wrapsLoopOf : ∀ parent : Stmt, parent.Within statement → ∀ child ∈ parent.children,
    child.isDeclaration = true → parent.WrapsLoopOf child

theorem Lowered.of_children {statement : Stmt} (hself : statement.isAssignAll = false)
    (hdeclares : ∀ child ∈ statement.children, child.isDeclaration = true →
      statement.WrapsLoopOf child)
    (hchildren : ∀ child ∈ statement.children, child.Lowered) : statement.Lowered where
  isAssignAll := by
    rintro inner (_ | ⟨hchild, hwithin⟩)
    · exact hself
    · exact (hchildren _ hchild).isAssignAll inner hwithin
  wrapsLoopOf := by
    rintro parent (_ | ⟨hchild, hwithin⟩)
    · exact hdeclares
    · exact (hchildren _ hchild).wrapsLoopOf parent hwithin

theorem Lowered.of_leaf {statement : Stmt} (hself : statement.isAssignAll = false)
    (hleaf : statement.children = []) : statement.Lowered :=
  .of_children hself (by simp [hleaf]) (by simp [hleaf])

/-- Statements that are not declarations make up a block. -/
theorem Lowered.block {body : List Stmt} (line : Nat)
    (hbody : ∀ child ∈ body, child.Lowered ∧ child.isDeclaration = false) :
    (Stmt.block body line).Lowered := by
  refine .of_children rfl (fun child hchild hdeclares => ?_) fun child hchild =>
    (hbody child hchild).1
  rw [(hbody child hchild).2] at hdeclares
  cases hdeclares

theorem Lowered.loop (condition : Expr) {body : Stmt} (line : Nat) (hbody : body.Lowered)
    (hdeclares : body.isDeclaration = false) : (Stmt.loop condition body line).Lowered := by
  refine .of_children rfl ?_ ?_
  · rintro child (_ | ⟨_, hnone⟩) hchild
    · rw [hdeclares] at hchild
      cases hchild
    · cases hnone
  · rintro child (_ | ⟨_, hnone⟩)
    · exact hbody
    · cases hnone

theorem lowered_ofExpr (expr : Expr) :
    (Stmt.ofExpr expr).Lowered ∧ (Stmt.ofExpr expr).isDeclaration = false :=
  ⟨.of_leaf rfl rfl, rfl⟩

end Stmt

theorem Initializer.lowered_lower (initializer : Initializer) : initializer.lower.Lowered := by
  cases initializer with
  | declared type declarator => exact .of_leaf rfl rfl
  | expression expr => exact (Stmt.lowered_ofExpr expr).1

mutual

theorem Phrase.lowered_lower :
    (phrase : Phrase) → phrase.lower.Lowered ∧ phrase.lower.isDeclaration = false
  | .display _ _ => ⟨.of_leaf rfl rfl, rfl⟩
  | .scan _ _ _ => ⟨.of_leaf rfl rfl, rfl⟩
  | .expression expr => Stmt.lowered_ofExpr expr
  | .conditional branch => branch.lowered_lower
  | .loop _ (.mk phrases _) _ => ⟨.loop _ _ (.block _ (Phrase.lowered_lowerAll phrases)) rfl, rfl⟩
  | .forLoop initializer condition increment (.mk phrases bodyLine) line => by
      have hbody : ∀ child ∈ Phrase.lowerAll phrases ++ increment.toList.map Stmt.ofExpr,
          child.Lowered ∧ child.isDeclaration = false := by
        intro child hchild
        rcases List.mem_append.mp hchild with hchild | hchild
        · exact Phrase.lowered_lowerAll phrases child hchild
        · obtain ⟨expr, -, rfl⟩ := List.mem_map.mp hchild
          exact Stmt.lowered_ofExpr expr
      have hloop := Stmt.Lowered.loop (condition.getD (.literal (.bool true) line)) line
        (.block bodyLine hbody) rfl
      cases initializer with
      | none => exact ⟨hloop, rfl⟩
      | some initializer =>
          refine ⟨.of_children rfl ?_ ?_, rfl⟩
          · rintro child (_ | ⟨_, _ | ⟨_, hnone⟩⟩) hdeclares
            · exact ⟨_, _, _, _, rfl⟩
            · cases hdeclares
            · cases hnone
          · rintro child (_ | ⟨_, _ | ⟨_, hnone⟩⟩)
            · exact initializer.lowered_lower
            · exact hloop
            · cases hnone

theorem Branch.lowered_lower :
    (branch : Branch) → branch.lower.Lowered ∧ branch.lower.isDeclaration = false
  | .mk condition (.mk phrases bodyLine) otherwise line => by
      have hbody := Stmt.Lowered.block bodyLine (Phrase.lowered_lowerAll phrases)
      have hotherwise := otherwise.lowered_lower
      refine ⟨.of_children rfl ?_ ?_, rfl⟩
      · rintro child (_ | ⟨_, hchild⟩) hdeclares
        · cases hdeclares
        · rw [(hotherwise child hchild).2] at hdeclares
          cases hdeclares
      · rintro child (_ | ⟨_, hchild⟩)
        · exact hbody
        · exact (hotherwise child hchild).1

theorem Otherwise.lowered_lower :
    (otherwise : Otherwise) → ∀ child ∈ otherwise.lower.toList,
      child.Lowered ∧ child.isDeclaration = false
  | .nothing => by simp [Otherwise.lower]
  | .body (.mk phrases line) => by
      rintro child (_ | ⟨_, hnone⟩)
      · exact ⟨.block line (Phrase.lowered_lowerAll phrases), rfl⟩
      · cases hnone
  | .chained branch => by
      rintro child (_ | ⟨_, hnone⟩)
      · exact branch.lowered_lower
      · cases hnone

theorem Phrase.lowered_lowerAll :
    (phrases : List Phrase) → ∀ child ∈ Phrase.lowerAll phrases,
      child.Lowered ∧ child.isDeclaration = false
  | [] => by simp [Phrase.lowerAll]
  | phrase :: others => by
      rintro child (_ | ⟨_, hchild⟩)
      · exact phrase.lowered_lower
      · exact Phrase.lowered_lowerAll others child hchild

end

namespace Program

theorem Source.lowered_of_mem {program : Source} {child : Stmt}
    (hchild : child ∈ program.statements) : child.Lowered := by
  rcases List.mem_append.mp hchild with hchild | hchild
  · obtain ⟨declaration, -, hchild⟩ := List.mem_flatMap.mp hchild
    obtain ⟨declarator, -, rfl⟩ := List.mem_map.mp hchild
    exact .of_leaf rfl rfl
  · exact (Phrase.lowered_lowerAll program.phrases child hchild).1

theorem exists_source_of_parse_silent {tokens : List Token}
    (hsilent : (parse tokens .empty).2 = .empty) :
    ∃ program : Source, (parse tokens .empty).1 = [program.lower] ∧
      Source.Spelled tokens program
        (tokens.dropWhile fun token => token.kind != .endOfInput) ∧
      (∀ inner : Stmt, inner.Within program.lower → inner.isAssignAll = false) ∧
      ∀ parent : Stmt, parent.Within program.lower → ∀ child ∈ parent.children,
        child.isDeclaration = true → parent = program.lower ∨ parent.WrapsLoopOf child := by
  obtain ⟨program, hparse, hspelled⟩ := parse_sound hsilent
  refine ⟨program, hparse, hspelled, ?_, ?_⟩
  · rintro inner (_ | ⟨hchild, hwithin⟩)
    · rfl
    · exact (Source.lowered_of_mem hchild).isAssignAll inner hwithin
  · rintro parent (_ | ⟨hchild, hwithin⟩) child hbelow hdeclares
    · exact .inl rfl
    · exact .inr ((Source.lowered_of_mem hchild).wrapsLoopOf parent hwithin child hbelow hdeclares)

/-- `INT n, m = 1` and a `FOR` with a loop variable, then tokens after the end of input. -/
def counting : List Token :=
  [⟨.kwBegin, "BEGIN", 1, none⟩, ⟨.kwCode, "CODE", 1, none⟩, ⟨.kwInt, "INT", 2, none⟩,
    ⟨.identifier, "n", 2, none⟩, ⟨.comma, ",", 2, none⟩, ⟨.identifier, "m", 2, none⟩,
    ⟨.equals, "=", 2, none⟩, ⟨.integer, "1", 2, some (.integer 1)⟩, ⟨.kwFor, "FOR", 3, none⟩,
    ⟨.leftParen, "(", 3, none⟩, ⟨.kwInt, "INT", 3, none⟩, ⟨.identifier, "i", 3, none⟩,
    ⟨.semicolon, ";", 3, none⟩, ⟨.kwFalse, "FALSE", 3, none⟩, ⟨.semicolon, ";", 3, none⟩,
    ⟨.rightParen, ")", 3, none⟩, ⟨.kwBegin, "BEGIN", 4, none⟩, ⟨.kwFor, "FOR", 4, none⟩,
    ⟨.kwDisplay, "DISPLAY", 5, none⟩, ⟨.colon, ":", 5, none⟩, ⟨.identifier, "i", 5, none⟩,
    ⟨.kwEnd, "END", 6, none⟩, ⟨.kwFor, "FOR", 6, none⟩, ⟨.kwEnd, "END", 7, none⟩,
    ⟨.kwCode, "CODE", 7, none⟩, ⟨.endOfInput, "", 7, none⟩, ⟨.comma, ",", 8, none⟩]

theorem exists_source_of_parse_counting :
    (parse counting .empty).2 = .empty ∧
      ∃ program : Source, (parse counting .empty).1 = [program.lower] ∧
        Source.Spelled counting program
          [⟨.endOfInput, "", 7, none⟩, ⟨.comma, ",", 8, none⟩] := by
  have hsilent : (parse counting .empty).2 = .empty := by decide
  obtain ⟨program, hparse, hspelled, -⟩ := exists_source_of_parse_silent hsilent
  exact ⟨hsilent, program, hparse, hspelled⟩

end Program

end BeginCode
