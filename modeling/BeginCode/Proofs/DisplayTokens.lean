import BeginCode.Proofs.ProgramShape
import BeginCode.Proofs.ScanSteps

/-!
# Display keywords and display statements

Every keyword `DISPLAY` of a program begins exactly one display statement: the lines of the keywords
are the lines of the statements, in the same order. In particular the keyword never stands in an
expression, in the list of a `SCAN` or in the head of a `FOR`.
-/

namespace BeginCode

open BeginCode.Token (Kind)

/-! ### Lines of statements -/

mutual

/-- The lines of the display statements within a statement, in the order of the source. -/
def Stmt.displayLines : Stmt → List Nat
  | .block body _ => Stmt.allDisplayLines body
  | .conditional _ thenBranch none _ => thenBranch.displayLines
  | .conditional _ thenBranch (some elseBranch) _ =>
      thenBranch.displayLines ++ elseBranch.displayLines
  | .loop _ body _ => body.displayLines
  | .display _ line => [line]
  | .expression _ _ | .scan _ _ | .declare _ _ _ | .assignAll _ _ _ => []

def Stmt.allDisplayLines : List Stmt → List Nat
  | [] => []
  | statement :: others => statement.displayLines ++ Stmt.allDisplayLines others

end

namespace Stmt

theorem allDisplayLines_eq_flatMap (statements : List Stmt) :
    allDisplayLines statements = statements.flatMap displayLines := by
  induction statements with
  | nil => rfl
  | cons statement others ih => rw [allDisplayLines, ih, List.flatMap_cons]

theorem sizeOf_lt_of_mem_children {child statement : Stmt} (hchild : child ∈ statement.children) :
    sizeOf child < sizeOf statement := by
  cases statement with
  | block body line =>
      have hmem : child ∈ body := hchild
      have := List.sizeOf_lt_of_mem hmem
      simp only [block.sizeOf_spec]
      omega
  | conditional condition thenBranch elseBranch line =>
      rcases List.mem_cons.mp hchild with rfl | hchild
      · simp only [conditional.sizeOf_spec]
        omega
      · obtain rfl := Option.mem_toList.mp hchild
        simp only [conditional.sizeOf_spec, Option.some.sizeOf_spec]
        omega
  | loop condition body line =>
      obtain rfl := List.mem_singleton.mp hchild
      simp only [loop.sizeOf_spec]
      omega
  | _ => cases hchild

/-- What holds of a statement if it holds of the statements directly below it. -/
theorem induction_children {motive : Stmt → Prop}
    (hstep : ∀ statement : Stmt, (∀ child ∈ statement.children, motive child) → motive statement)
    (statement : Stmt) : motive statement :=
  hstep statement fun child hchild =>
    have := sizeOf_lt_of_mem_children hchild
    induction_children hstep child
termination_by sizeOf statement

/-- What holds of a statement for its own sake or that of one directly below it holds for the sake
of a statement within it. -/
theorem iff_exists_within {holds own : Stmt → Prop}
    (hstep : ∀ statement : Stmt,
      holds statement ↔ own statement ∨ ∃ child ∈ statement.children, holds child)
    {statement : Stmt} : holds statement ↔ ∃ inner, own inner ∧ inner.Within statement := by
  induction statement using induction_children with
  | hstep statement ih =>
      rw [hstep]
      constructor
      · rintro (hown | ⟨child, hchild, hholds⟩)
        · exact ⟨statement, hown, .self⟩
        · obtain ⟨inner, hinner, hwithin⟩ := (ih child hchild).mp hholds
          exact ⟨inner, hinner, .inside hchild hwithin⟩
      · rintro ⟨inner, hinner, _ | ⟨hchild, hwithin⟩⟩
        · exact .inl hinner
        · exact .inr ⟨_, hchild, (ih _ hchild).mpr ⟨inner, hinner, hwithin⟩⟩

theorem mem_displayLines_iff {statement : Stmt} {line : Nat} :
    line ∈ statement.displayLines ↔
      (∃ value, .display value line = statement) ∨
        ∃ child ∈ statement.children, line ∈ child.displayLines := by
  cases statement with
  | block body _ => simp [displayLines, allDisplayLines_eq_flatMap, children]
  | conditional _ thenBranch elseBranch _ => cases elseBranch <;> simp [displayLines, children]
  | _ => simp [displayLines, children]

/-- These are the lines of the display statements at any depth. -/
theorem mem_displayLines {statement : Stmt} {line : Nat} :
    line ∈ statement.displayLines ↔ ∃ value, (Stmt.display value line).Within statement := by
  rw [iff_exists_within fun _ => mem_displayLines_iff]
  constructor
  · rintro ⟨inner, ⟨value, rfl⟩, hwithin⟩
    exact ⟨value, hwithin⟩
  · rintro ⟨value, hwithin⟩
    exact ⟨_, ⟨value, rfl⟩, hwithin⟩

end Stmt

/-! ### Lines of tokens -/

/-- The lines of the keywords `DISPLAY`. -/
def Token.displayLines (tokens : List Token) : List Nat :=
  (tokens.filter fun token => token.kind = .kwDisplay).map Token.line

/-- Up to the rest, the tokens have the keyword `DISPLAY` on these lines. -/
def Displays (tokens : List Token) (lines : List Nat) (rest : List Token) : Prop :=
  Token.displayLines tokens = lines ++ Token.displayLines rest

variable {tokens middle rest : List Token} {token name : Token} {lines more : List Nat}

theorem Displays.trans (hfirst : Displays tokens lines middle)
    (hsecond : Displays middle more rest) : Displays tokens (lines ++ more) rest := by
  rw [Displays, hfirst, hsecond, List.append_assoc]

/-- Tokens without the keyword and what comes after them. -/
theorem Displays.after (hsecond : Displays middle lines rest)
    (hfirst : Displays tokens [] middle) : Displays tokens lines rest :=
  hfirst.trans hsecond

theorem Displays.cons {kind : Kind} (hrest : Displays tokens lines rest)
    (hkind : token.kind = kind) (hquiet : kind ≠ .kwDisplay) :
    Displays (token :: tokens) lines rest := by
  subst hkind
  rw [Displays, Token.displayLines, List.filter_cons_of_neg (by simpa using hquiet)]
  exact hrest

theorem displays_nothing : Displays rest [] rest := rfl

theorem displays_token {kind : Kind} (hkind : token.kind = kind) (hquiet : kind ≠ .kwDisplay) :
    Displays (token :: rest) [] rest :=
  displays_nothing.cons hkind hquiet

theorem displays_keyword (hkind : token.kind = .kwDisplay)
    (hrest : Displays tokens [] rest) : Displays (token :: tokens) [token.line] rest := by
  rw [Displays, Token.displayLines, List.filter_cons_of_pos (by simpa using hkind)]
  exact congrArg (token.line :: ·) hrest

/-! ### Expressions and lists -/

namespace Expr

theorem ne_kwDisplay_of_join {kind : Kind} {join : Join} (hjoin : kind.join? = some join) :
    kind ≠ .kwDisplay := by
  rintro rfl
  cases hjoin

theorem ne_kwDisplay_of_prefixed {kind : Kind} {op : UnaryOp} (hop : prefixed? kind = some op) :
    kind ≠ .kwDisplay := by
  rintro rfl
  cases hop

theorem ne_kwDisplay_of_literal {value : Value} (hvalue : token.literalValue? = some value) :
    token.kind ≠ .kwDisplay := by
  intro hkind
  rw [Token.literalValue?, hkind] at hvalue
  cases hvalue

theorem Derives.displays {level : Level} {expr : Expr}
    (hderives : Derives level tokens expr rest) : Displays tokens [] rest := by
  induction hderives with
  | assign hname hequals _ ih => exact (ih.cons hequals (by decide)).cons hname (by decide)
  | loosen _ _ ih => exact ih
  | join _ _ hjoin _ _ ihLeft ihRight =>
      exact (ihRight.cons rfl (ne_kwDisplay_of_join hjoin)).after ihLeft
  | joinNothing _ hkind _ ih => exact (displays_token hkind (by decide)).after ih
  | prefixed hop _ _ ih => exact ih.cons rfl (ne_kwDisplay_of_prefixed hop)
  | lineBreak hkind _ => exact displays_token hkind (by decide)
  | literal hvalue => exact displays_token rfl (ne_kwDisplay_of_literal hvalue)
  | named hname => exact displays_token hname (by decide)
  | grouping hopening _ hclosing ih =>
      exact ((displays_token hclosing (by decide)).after ih).cons hopening (by decide)

theorem Spelled.displays {expr : Expr} (hspelled : Spelled tokens expr rest) :
    Displays tokens [] rest := hspelled.1.displays

end Expr

section Items

variable {α : Type} {item : List Token → α → List Token → Prop}
  (hitem : ∀ {tokens found rest}, item tokens found rest → Displays tokens [] rest)

include hitem

theorem Listed.displays {found : List α} (hlisted : Listed item tokens found rest) :
    Displays tokens [] rest := by
  induction hlisted with
  | last hfirst _ => exact hitem hfirst
  | more hfirst hcomma _ ih => exact (ih.cons hcomma (by decide)).after (hitem hfirst)

theorem Clause.displays {closing : Kind} {found : Option α}
    (hclause : Clause item closing tokens found rest) (hquiet : closing ≠ .kwDisplay) :
    Displays tokens [] rest := by
  cases hclause with
  | empty hclose => exact displays_token hclose hquiet
  | filled hfilled hclose => exact (displays_token hclose hquiet).after (hitem hfilled)

end Items

theorem Token.Named.displays (hnamed : Token.Named tokens name rest) :
    Displays tokens [] rest := by
  rw [hnamed.1]
  exact displays_token hnamed.2 (by decide)

theorem Declarator.Spelled.displays {declarator : Declarator}
    (hspelled : Declarator.Spelled tokens declarator rest) : Displays tokens [] rest := by
  cases hspelled with
  | plain hname _ => exact displays_token hname (by decide)
  | initialized hname hequals hvalue =>
      exact (hvalue.displays.cons hequals (by decide)).cons hname (by decide)

theorem Declaration.Spelled.displays {declaration : Declaration}
    (hspelled : Declaration.Spelled tokens declaration rest) : Displays tokens [] rest := by
  cases hspelled with
  | mk hkeyword hnames =>
      exact (hnames.displays Declarator.Spelled.displays).cons rfl
        (Token.Kind.ne_of_valueType? hkeyword rfl)

theorem Declaration.AllSpelled.displays {declarations : List Declaration}
    (hspelled : Declaration.AllSpelled tokens declarations rest) : Displays tokens [] rest := by
  induction hspelled with
  | nil => exact displays_nothing
  | cons hdeclaration _ ih => exact ih.after hdeclaration.displays

theorem Initializer.Spelled.displays {initializer : Initializer}
    (hspelled : Initializer.Spelled tokens initializer rest) : Displays tokens [] rest := by
  cases hspelled with
  | declared hkeyword hdeclarator =>
      exact hdeclarator.displays.cons rfl (Token.Kind.ne_of_valueType? hkeyword rfl)
  | expression hexpr => exact hexpr.displays

/-! ### Phrases -/

theorem Stmt.allDisplayLines_append (front back : List Stmt) :
    Stmt.allDisplayLines (front ++ back) =
      Stmt.allDisplayLines front ++ Stmt.allDisplayLines back := by
  rw [allDisplayLines_eq_flatMap, List.flatMap_append, ← allDisplayLines_eq_flatMap,
    ← allDisplayLines_eq_flatMap]

theorem Body.displayLines_lowerWith (increment : Option Expr) (body : Body) :
    (body.lowerWith increment).displayLines = body.lower.displayLines := by
  obtain ⟨phrases, line⟩ := body
  rw [Body.lowerWith, Body.lower, Stmt.displayLines, Stmt.displayLines,
    Stmt.allDisplayLines_append]
  cases increment <;> exact List.append_nil _

/-- The initializer and the increment of a `FOR` display nothing. -/
theorem Phrase.displayLines_forLoop (initializer : Option Initializer)
    (condition increment : Option Expr) (body : Body) (line : Nat) :
    (Phrase.forLoop initializer condition increment body line).lower.displayLines =
      body.lower.displayLines := by
  rw [← body.displayLines_lowerWith increment]
  rcases initializer with _ | (_ | _)
  · rfl
  · exact List.append_nil _
  · exact List.append_nil _

def Otherwise.displayLines (otherwise : Otherwise) : List Nat :=
  otherwise.lower.elim [] Stmt.displayLines

theorem Branch.displayLines_lower (condition : Expr) (body : Body) (otherwise : Otherwise)
    (line : Nat) :
    (Branch.mk condition body otherwise line).lower.displayLines =
      body.lower.displayLines ++ otherwise.displayLines := by
  cases otherwise with
  | nothing => exact (List.append_nil _).symm
  | body _ => rfl
  | chained _ => rfl

mutual

theorem Phrase.Spelled.displays {tokens rest : List Token} {phrase : Phrase} :
    Phrase.Spelled tokens phrase rest → Displays tokens phrase.lower.displayLines rest
  | .display hkeyword hcolon hvalue =>
      displays_keyword hkeyword (hvalue.displays.cons hcolon (by decide))
  | .scan hkeyword hcolon hnames =>
      ((hnames.displays Token.Named.displays).cons hcolon (by decide)).cons hkeyword (by decide)
  | .expression hexpr => hexpr.displays
  | .conditional hbranch => hbranch.displays
  | .loop hkeyword hopening hcondition hclosing hbody =>
      have hclosed := (hbody.displays (by decide)).cons hclosing (by decide)
      ((hclosed.after hcondition.displays).cons hopening (by decide)).cons hkeyword (by decide)
  | .forLoop hkeyword hopening hinitializer hcondition hincrement hbody => by
      rw [Phrase.displayLines_forLoop]
      have hhead := ((hbody.displays (by decide)).after
        (hincrement.displays Expr.Spelled.displays (by decide))).after
          (hcondition.displays Expr.Spelled.displays (by decide))
      have hinitialized :=
        hhead.after (hinitializer.displays Initializer.Spelled.displays (by decide))
      exact (hinitialized.cons hopening (by decide)).cons hkeyword (by decide)

theorem Body.Spelled.displays {keyword : Kind} {tokens rest : List Token} {body : Body} :
    Body.Spelled keyword tokens body rest → keyword ≠ .kwDisplay →
      Displays tokens body.lower.displayLines rest
  | .mk hopening hopened hphrases hending hended, hquiet => by
      have hclosed := hphrases.displays.trans
        ((displays_token hended hquiet).cons hending (by decide))
      rw [List.append_nil] at hclosed
      exact (hclosed.cons hopened hquiet).cons hopening (by decide)

theorem Branch.Spelled.displays {tokens rest : List Token} {branch : Branch} :
    Branch.Spelled tokens branch rest → Displays tokens branch.lower.displayLines rest
  | @Branch.Spelled.mk _ _ _ _ _ _ _ condition body otherwise hkeyword hopening hcondition hclosing
      hbody hotherwise => by
      have hbranches := (hbody.displays (by decide)).trans hotherwise.displays
      rw [Branch.displayLines_lower]
      exact (((hbranches.cons hclosing (by decide)).after hcondition.displays).cons hopening
        (by decide)).cons hkeyword (by decide)

theorem Otherwise.Spelled.displays {tokens rest : List Token} {otherwise : Otherwise} :
    Otherwise.Spelled tokens otherwise rest → Displays tokens otherwise.displayLines rest
  | .nothing _ => displays_nothing
  | .body hkeyword hbody => (hbody.displays (by decide)).cons hkeyword (by decide)
  | .chained hkeyword hbranch => hbranch.displays.cons hkeyword (by decide)

theorem Phrase.AllSpelled.displays {tokens rest : List Token} {phrases : List Phrase} :
    Phrase.AllSpelled tokens phrases rest →
      Displays tokens (Stmt.allDisplayLines (Phrase.lowerAll phrases)) rest
  | .nil => displays_nothing
  | .cons hphrase hothers => hphrase.displays.trans hothers.displays

end

theorem Stmt.allDisplayLines_declarations (declarations : List Declaration) :
    Stmt.allDisplayLines (declarations.flatMap Declaration.lower) = [] := by
  rw [Stmt.allDisplayLines_eq_flatMap, List.flatMap_eq_nil_iff]
  intro statement hmem
  obtain ⟨declaration, -, hmem⟩ := List.mem_flatMap.mp hmem
  obtain ⟨declarator, -, rfl⟩ := List.mem_map.mp hmem
  rfl

/-- The keywords of a program and its display statements are on the same lines. -/
theorem Program.Source.Spelled.displays {program : Program.Source}
    (hspelled : Program.Source.Spelled tokens program rest) :
    Displays tokens program.lower.displayLines rest := by
  cases hspelled with
  | mk hopening hopened hdeclarations hphrases hending hended =>
      have hclosed := hphrases.displays.trans
        ((displays_token hended (by decide)).cons hending (by decide))
      rw [List.append_nil] at hclosed
      rw [Program.Source.lower, Stmt.displayLines, Program.Source.statements,
        Stmt.allDisplayLines_append, Stmt.allDisplayLines_declarations, List.nil_append]
      have hopen := (hclosed.after hdeclarations.displays).cons hopened (by decide)
      exact hopen.cons hopening (by decide)

/-! ### Programs -/

/-- A source that is read without a report is one statement, and it displays on the lines of the
keywords `DISPLAY`. -/
theorem Program.displayLines_parse {source : String}
    (hreport : (parse (scan source).tokens .empty).2 = .empty) :
    ∃ statement, (parse (scan source).tokens .empty).1 = [statement] ∧
      statement.displayLines = Token.displayLines (scan source).tokens := by
  obtain ⟨program, hparse, hspelled⟩ := parse_sound hreport
  refine ⟨program.lower, hparse, ?_⟩
  have hdisplays := hspelled.displays
  rw [Scan.dropWhile_tokens, Displays] at hdisplays
  rw [hdisplays]
  exact (List.append_nil _).symm

end BeginCode
