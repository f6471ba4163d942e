import BeginCode.Proofs.ExprGrammar
import BeginCode.Stmt

/-!
# Programs as they are written

Phrases are the statements of source text, with `FOR` as a form of its own. Lowering a phrase gives
the statement that is executed. `Phrase.Spelled tokens phrase rest` is the grammar: a phrase stands
at the front of `tokens` and leaves `rest`. Phrases hold no declarations except in the head of a
`FOR`; the declarations of a program come before its phrases.
-/

namespace BeginCode

open BeginCode.Token (Kind)

/-- A declared name with its initializer. -/
structure Declarator where
  name : Token
  initializer : Option Expr

/-- A type keyword and the names after it. -/
structure Declaration where
  type : ValueType
  first : Declarator
  others : List Declarator

/-- What stands before the first semicolon of a `FOR`. -/
inductive Initializer where
  | declared (type : ValueType) (declarator : Declarator)
  | expression (expr : Expr)

mutual

inductive Phrase where
  | display (value : Expr) (line : Nat)
  | scan (first : Token) (others : List Token) (line : Nat)
  | expression (expr : Expr)
  | conditional (branch : Branch)
  | loop (condition : Expr) (body : Body) (line : Nat)
  | forLoop (initializer : Option Initializer) (condition increment : Option Expr) (body : Body)
      (line : Nat)

/-- Phrases between `BEGIN` and `END`, with the line of the `BEGIN`. -/
inductive Body where
  | mk (phrases : List Phrase) (line : Nat)

/-- An `IF` with its condition, its body and what follows that. -/
inductive Branch where
  | mk (condition : Expr) (body : Body) (otherwise : Otherwise) (line : Nat)

inductive Otherwise where
  | nothing
  | body (body : Body)
  | chained (branch : Branch)

end

structure Program.Source where
  declarations : List Declaration
  phrases : List Phrase
  line : Nat

/-! ### Lowering -/

def Declarator.lower (type : ValueType) (declarator : Declarator) : Stmt :=
  .declare type declarator.name declarator.initializer

/-- One declaration statement for each name. -/
def Declaration.lower (declaration : Declaration) : List Stmt :=
  (declaration.first :: declaration.others).map (Declarator.lower declaration.type)

def Initializer.lower : Initializer → Stmt
  | declared type declarator => declarator.lower type
  | expression expr => .ofExpr expr

mutual

/-- A `FOR` becomes a loop whose body ends with the increment. Only with an initializer it stands in
a block of its own. -/
def Phrase.lower : Phrase → Stmt
  | .display value line => .display value line
  | .scan first others line => .scan (first :: others) line
  | .expression expr => .ofExpr expr
  | .conditional branch => branch.lower
  | .loop condition body line => .loop condition body.lower line
  | .forLoop none condition increment body line =>
      .loop (condition.getD (.literal (.bool true) line)) (body.lowerWith increment) line
  | .forLoop (some initializer) condition increment body line =>
      .block [initializer.lower,
        .loop (condition.getD (.literal (.bool true) line)) (body.lowerWith increment) line] line

def Body.lower : Body → Stmt
  | .mk phrases line => .block (Phrase.lowerAll phrases) line

/-- The body of a `FOR` with its increment. -/
def Body.lowerWith (increment : Option Expr) : Body → Stmt
  | .mk phrases line => .block (Phrase.lowerAll phrases ++ increment.toList.map .ofExpr) line

def Branch.lower : Branch → Stmt
  | .mk condition body otherwise line =>
      .conditional condition body.lower otherwise.lower line

def Otherwise.lower : Otherwise → Option Stmt
  | .nothing => none
  | .body body => some body.lower
  | .chained branch => some branch.lower

def Phrase.lowerAll : List Phrase → List Stmt
  | [] => []
  | phrase :: others => phrase.lower :: Phrase.lowerAll others

end

theorem Phrase.lower_forLoop (initializer : Option Initializer) (condition increment : Option Expr)
    (phrases : List Phrase) (bodyLine line : Nat) :
    (Phrase.forLoop initializer condition increment (.mk phrases bodyLine) line).lower =
      .forLoop (initializer.map Initializer.lower) condition increment (Phrase.lowerAll phrases)
        bodyLine line := by
  cases initializer <;> rfl

namespace Program.Source

/-- The statements of the program block: first the declarations, then the phrases. -/
def statements (program : Source) : List Stmt :=
  program.declarations.flatMap Declaration.lower ++ Phrase.lowerAll program.phrases

def lower (program : Source) : Stmt := .block program.statements program.line

end Program.Source

/-! ### Grammar -/

/-- One or more items with commas between them, as many as there are. -/
inductive Listed {α : Type} (item : List Token → α → List Token → Prop) :
    List Token → List α → List Token → Prop where
  | last {tokens rest : List Token} {found : α} (hitem : item tokens found rest)
      (hnext : (rest.headD .pastEnd).kind ≠ .comma) : Listed item tokens [found] rest
  | more {tokens middle rest : List Token} {comma : Token} {found : α} {others : List α}
      (hitem : item tokens found (comma :: middle)) (hcomma : comma.kind = .comma)
      (hothers : Listed item middle others rest) : Listed item tokens (found :: others) rest

def Token.Named (tokens : List Token) (name : Token) (rest : List Token) : Prop :=
  tokens = name :: rest ∧ name.kind = .identifier

inductive Declarator.Spelled : List Token → Declarator → List Token → Prop where
  | plain {name : Token} {rest : List Token} (hname : name.kind = .identifier)
      (hnext : (rest.headD .pastEnd).kind ≠ .equals) : Spelled (name :: rest) ⟨name, none⟩ rest
  | initialized {name equals : Token} {tokens rest : List Token} {value : Expr}
      (hname : name.kind = .identifier) (hequals : equals.kind = .equals)
      (hvalue : Expr.Spelled tokens value rest) :
      Spelled (name :: equals :: tokens) ⟨name, some value⟩ rest

inductive Declaration.Spelled : List Token → Declaration → List Token → Prop where
  | mk {keyword : Token} {tokens rest : List Token} {type : ValueType} {first : Declarator}
      {others : List Declarator} (hkeyword : keyword.kind.valueType? = some type)
      (hnames : Listed Declarator.Spelled tokens (first :: others) rest) :
      Spelled (keyword :: tokens) ⟨type, first, others⟩ rest

inductive Initializer.Spelled : List Token → Initializer → List Token → Prop where
  | declared {keyword : Token} {tokens rest : List Token} {type : ValueType}
      {declarator : Declarator} (hkeyword : keyword.kind.valueType? = some type)
      (hdeclarator : Declarator.Spelled tokens declarator rest) :
      Spelled (keyword :: tokens) (.declared type declarator) rest
  | expression {tokens rest : List Token} {expr : Expr} (hexpr : Expr.Spelled tokens expr rest) :
      Spelled tokens (.expression expr) rest

/-- A clause of a `FOR` head and the token that closes it. -/
inductive Clause {α : Type} (item : List Token → α → List Token → Prop) (closing : Kind) :
    List Token → Option α → List Token → Prop where
  | empty {close : Token} {rest : List Token} (hclose : close.kind = closing) :
      Clause item closing (close :: rest) none rest
  | filled {close : Token} {tokens rest : List Token} {found : α}
      (hitem : item tokens found (close :: rest)) (hclose : close.kind = closing) :
      Clause item closing tokens (some found) rest

mutual

inductive Phrase.Spelled : List Token → Phrase → List Token → Prop where
  | display {keyword colon : Token} {tokens rest : List Token} {value : Expr}
      (hkeyword : keyword.kind = .kwDisplay) (hcolon : colon.kind = .colon)
      (hvalue : Expr.Spelled tokens value rest) :
      Phrase.Spelled (keyword :: colon :: tokens) (.display value keyword.line) rest
  | scan {keyword colon first : Token} {tokens rest : List Token} {others : List Token}
      (hkeyword : keyword.kind = .kwScan) (hcolon : colon.kind = .colon)
      (hnames : Listed Token.Named tokens (first :: others) rest) :
      Phrase.Spelled (keyword :: colon :: tokens) (.scan first others keyword.line) rest
  | expression {tokens rest : List Token} {expr : Expr} (hexpr : Expr.Spelled tokens expr rest) :
      Phrase.Spelled tokens (.expression expr) rest
  | conditional {tokens rest : List Token} {branch : Branch}
      (hbranch : Branch.Spelled tokens branch rest) :
      Phrase.Spelled tokens (.conditional branch) rest
  | loop {keyword opening closing : Token} {tokens middle rest : List Token} {condition : Expr}
      {body : Body} (hkeyword : keyword.kind = .kwWhile) (hopening : opening.kind = .leftParen)
      (hcondition : Expr.Spelled tokens condition (closing :: middle))
      (hclosing : closing.kind = .rightParen) (hbody : Body.Spelled .kwWhile middle body rest) :
      Phrase.Spelled (keyword :: opening :: tokens) (.loop condition body keyword.line) rest
  | forLoop {keyword opening : Token} {tokens second third middle rest : List Token}
      {initializer : Option Initializer} {condition increment : Option Expr} {body : Body}
      (hkeyword : keyword.kind = .kwFor) (hopening : opening.kind = .leftParen)
      (hinitializer : Clause Initializer.Spelled .semicolon tokens initializer second)
      (hcondition : Clause Expr.Spelled .semicolon second condition third)
      (hincrement : Clause Expr.Spelled .rightParen third increment middle)
      (hbody : Body.Spelled .kwFor middle body rest) :
      Phrase.Spelled (keyword :: opening :: tokens)
        (.forLoop initializer condition increment body keyword.line) rest

/-- A body is closed by the keyword that opened it. -/
inductive Body.Spelled : Kind → List Token → Body → List Token → Prop where
  | mk {keyword : Kind} {opening opened ending ended : Token} {tokens rest : List Token}
      {phrases : List Phrase} (hopening : opening.kind = .kwBegin) (hopened : opened.kind = keyword)
      (hphrases : Phrase.AllSpelled tokens phrases (ending :: ended :: rest))
      (hending : ending.kind = .kwEnd) (hended : ended.kind = keyword) :
      Body.Spelled keyword (opening :: opened :: tokens) (.mk phrases opening.line) rest

inductive Branch.Spelled : List Token → Branch → List Token → Prop where
  | mk {keyword opening closing : Token} {tokens middle after rest : List Token}
      {condition : Expr} {body : Body} {otherwise : Otherwise} (hkeyword : keyword.kind = .kwIf)
      (hopening : opening.kind = .leftParen)
      (hcondition : Expr.Spelled tokens condition (closing :: middle))
      (hclosing : closing.kind = .rightParen) (hbody : Body.Spelled .kwIf middle body after)
      (hotherwise : Otherwise.Spelled after otherwise rest) :
      Branch.Spelled (keyword :: opening :: tokens) (.mk condition body otherwise keyword.line) rest

inductive Otherwise.Spelled : List Token → Otherwise → List Token → Prop where
  | nothing {rest : List Token} (hnext : (rest.headD .pastEnd).kind ≠ .kwElse) :
      Otherwise.Spelled rest .nothing rest
  | body {keyword : Token} {tokens rest : List Token} {body : Body}
      (hkeyword : keyword.kind = .kwElse) (hbody : Body.Spelled .kwIf tokens body rest) :
      Otherwise.Spelled (keyword :: tokens) (.body body) rest
  | chained {keyword : Token} {tokens rest : List Token} {branch : Branch}
      (hkeyword : keyword.kind = .kwElse) (hbranch : Branch.Spelled tokens branch rest) :
      Otherwise.Spelled (keyword :: tokens) (.chained branch) rest

inductive Phrase.AllSpelled : List Token → List Phrase → List Token → Prop where
  | nil {rest : List Token} : Phrase.AllSpelled rest [] rest
  | cons {tokens middle rest : List Token} {phrase : Phrase} {others : List Phrase}
      (hphrase : Phrase.Spelled tokens phrase middle)
      (hothers : Phrase.AllSpelled middle others rest) :
      Phrase.AllSpelled tokens (phrase :: others) rest

end

inductive Declaration.AllSpelled : List Token → List Declaration → List Token → Prop where
  | nil {rest : List Token} : AllSpelled rest [] rest
  | cons {tokens middle rest : List Token} {declaration : Declaration}
      {others : List Declaration} (hdeclaration : Declaration.Spelled tokens declaration middle)
      (hothers : AllSpelled middle others rest) : AllSpelled tokens (declaration :: others) rest

/-- `BEGIN CODE`, declarations, phrases, `END CODE`. -/
inductive Program.Source.Spelled : List Token → Source → List Token → Prop where
  | mk {opening opened ending ended : Token} {tokens middle rest : List Token}
      {declarations : List Declaration} {phrases : List Phrase} (hopening : opening.kind = .kwBegin)
      (hopened : opened.kind = .kwCode)
      (hdeclarations : Declaration.AllSpelled tokens declarations middle)
      (hphrases : Phrase.AllSpelled middle phrases (ending :: ended :: rest))
      (hending : ending.kind = .kwEnd) (hended : ended.kind = .kwCode) :
      Spelled (opening :: opened :: tokens) ⟨declarations, phrases, opening.line⟩ rest

/-! ### How a phrase begins -/

/-- The kinds of tokens that can begin a phrase. -/
def Token.Kind.beginsPhrase : Kind → Bool
  | kwDisplay | kwScan | kwIf | kwWhile | kwFor => true
  | kind => kind.beginsOperand

theorem Token.Kind.beginsPhrase_of_operand {kind : Kind} (hkind : kind.beginsOperand = true) :
    kind.beginsPhrase = true := by
  cases kind <;> first | rfl | cases hkind

theorem Token.Kind.valueType?_of_phrase {kind : Kind} (hkind : kind.beginsPhrase = true) :
    kind.valueType? = none := by
  cases kind <;> first | rfl | cases hkind

theorem Token.Kind.ne_of_beginsPhrase {kind other : Kind} (hkind : kind.beginsPhrase = true)
    (hother : other.beginsPhrase = false) : kind ≠ other := by
  rintro rfl
  exact Bool.false_ne_true (hother.symm.trans hkind)

theorem Phrase.Spelled.begins {tokens rest : List Token} {phrase : Phrase}
    (hspelled : Phrase.Spelled tokens phrase rest) :
    ∃ first others, tokens = first :: others ∧ first.kind.beginsPhrase = true := by
  cases hspelled with
  | display hkeyword _ _ => exact ⟨_, _, rfl, by rw [hkeyword]; rfl⟩
  | scan hkeyword _ _ => exact ⟨_, _, rfl, by rw [hkeyword]; rfl⟩
  | expression hexpr =>
      obtain ⟨first, others, rfl, hfirst⟩ := hexpr.1.begins
      exact ⟨first, others, rfl, Token.Kind.beginsPhrase_of_operand hfirst⟩
  | conditional hbranch =>
      cases hbranch with
      | mk hkeyword _ _ _ _ _ => exact ⟨_, _, rfl, by rw [hkeyword]; rfl⟩
  | loop hkeyword _ _ _ _ => exact ⟨_, _, rfl, by rw [hkeyword]; rfl⟩
  | forLoop hkeyword _ _ _ _ _ => exact ⟨_, _, rfl, by rw [hkeyword]; rfl⟩

theorem Token.Kind.ne_of_valueType? {kind other : Kind} {type : ValueType}
    (hkind : kind.valueType? = some type) (hother : other.valueType? = none) : kind ≠ other := by
  rintro rfl
  exact Option.some_ne_none type (hkind.symm.trans hother)

theorem Declaration.Spelled.begins {tokens rest : List Token} {declaration : Declaration}
    (hspelled : Declaration.Spelled tokens declaration rest) :
    ∃ keyword others type, tokens = keyword :: others ∧ keyword.kind.valueType? = some type := by
  cases hspelled with
  | mk hkeyword _ => exact ⟨_, _, _, rfl, hkeyword⟩

theorem Expr.Spelled.head_ne {tokens rest : List Token} {expr : Expr} {kind : Kind}
    (hspelled : Expr.Spelled tokens expr rest) (hkind : kind.beginsOperand = false) :
    (tokens.headD .pastEnd).kind ≠ kind := by
  obtain ⟨first, others, rfl, hbegins⟩ := hspelled.1.begins
  rintro rfl
  exact absurd hbegins (Bool.eq_false_iff.mp hkind)

theorem Initializer.Spelled.head_ne {tokens rest : List Token} {initializer : Initializer}
    (hspelled : Initializer.Spelled tokens initializer rest) :
    (tokens.headD .pastEnd).kind ≠ .semicolon := by
  cases hspelled with
  | declared hkeyword _ =>
      intro hsemicolon
      rw [List.headD_cons] at hsemicolon
      rw [hsemicolon] at hkeyword
      cases hkeyword
  | expression hexpr => exact hexpr.head_ne rfl

theorem Listed.ne_nil {α : Type} {item : List Token → α → List Token → Prop}
    {tokens rest : List Token} {found : List α} (hlisted : Listed item tokens found rest) :
    found ≠ [] := by
  cases hlisted <;> simp

/-! ### What is written takes up tokens -/

theorem Listed.length_lt {α : Type} {item : List Token → α → List Token → Prop}
    (hshorter : ∀ {tokens found rest}, item tokens found rest → rest.length < tokens.length)
    {tokens rest : List Token} {found : List α} (hlisted : Listed item tokens found rest) :
    rest.length < tokens.length := by
  induction hlisted with
  | last hitem _ => exact hshorter hitem
  | more hitem _ _ ih =>
      have hfirst := hshorter hitem
      rw [List.length_cons] at hfirst
      omega

theorem Token.Named.length_lt {tokens rest : List Token} {name : Token}
    (hnamed : Token.Named tokens name rest) : rest.length < tokens.length := by
  rw [hnamed.1, List.length_cons]
  omega

theorem Declarator.Spelled.length_lt {tokens rest : List Token} {written : Declarator}
    (hwritten : Declarator.Spelled tokens written rest) : rest.length < tokens.length := by
  cases hwritten with
  | plain _ _ => simp
  | initialized _ _ hvalue =>
      have hlength := hvalue.length_lt
      simp only [List.length_cons]
      omega

theorem Initializer.Spelled.length_lt {tokens rest : List Token} {initializer : Initializer}
    (hspelled : Initializer.Spelled tokens initializer rest) : rest.length < tokens.length := by
  cases hspelled with
  | declared _ hdeclarator =>
      have hlength := hdeclarator.length_lt
      simp only [List.length_cons]
      omega
  | expression hexpr => exact hexpr.length_lt

theorem Clause.length_lt {α : Type} {item : List Token → α → List Token → Prop} {closing : Kind}
    (hshorter : ∀ {tokens found rest}, item tokens found rest → rest.length < tokens.length)
    {tokens rest : List Token} {found : Option α}
    (hclause : Clause item closing tokens found rest) :
    rest.length < tokens.length := by
  cases hclause with
  | empty _ => simp
  | filled hitem _ =>
      have hlength := hshorter hitem
      rw [List.length_cons] at hlength
      omega

theorem Declaration.Spelled.length_lt {tokens rest : List Token} {declaration : Declaration}
    (hspelled : Declaration.Spelled tokens declaration rest) : rest.length < tokens.length := by
  cases hspelled with
  | mk _ hnames =>
      have hlength := hnames.length_lt Declarator.Spelled.length_lt
      simp only [List.length_cons]
      omega

mutual

theorem Phrase.Spelled.length_lt {tokens rest : List Token} {phrase : Phrase} :
    Phrase.Spelled tokens phrase rest → rest.length < tokens.length
  | .display _ _ hvalue => by
      have hlength := hvalue.length_lt
      simp only [List.length_cons]
      omega
  | .scan _ _ hnames => by
      have hlength := hnames.length_lt Token.Named.length_lt
      simp only [List.length_cons]
      omega
  | .expression hexpr => hexpr.length_lt
  | .conditional hbranch => hbranch.length_lt
  | .loop _ _ hcondition _ hbody => by
      have hlength := hcondition.length_lt
      have hbodyLength := hbody.length_lt
      simp only [List.length_cons] at hlength ⊢
      omega
  | .forLoop _ _ hinitializer hcondition hincrement hbody => by
      have hfirst := hinitializer.length_lt Initializer.Spelled.length_lt
      have hsecond := hcondition.length_lt Expr.Spelled.length_lt
      have hthird := hincrement.length_lt Expr.Spelled.length_lt
      have hlength := hbody.length_lt
      simp only [List.length_cons]
      omega

theorem Body.Spelled.length_lt {keyword : Kind} {tokens rest : List Token} {body : Body} :
    Body.Spelled keyword tokens body rest → rest.length < tokens.length
  | .mk _ _ hphrases _ _ => by
      have hlength := hphrases.length_le
      simp only [List.length_cons] at hlength ⊢
      omega

theorem Branch.Spelled.length_lt {tokens rest : List Token} {branch : Branch} :
    Branch.Spelled tokens branch rest → rest.length < tokens.length
  | .mk _ _ hcondition _ hbody hotherwise => by
      have hfirst := hcondition.length_lt
      have hsecond := hbody.length_lt
      have hthird := hotherwise.length_le
      simp only [List.length_cons] at hfirst ⊢
      omega

theorem Otherwise.Spelled.length_le {tokens rest : List Token} {otherwise : Otherwise} :
    Otherwise.Spelled tokens otherwise rest → rest.length ≤ tokens.length
  | .nothing _ => Nat.le_refl _
  | .body _ hbody => by
      have hlength := hbody.length_lt
      simp only [List.length_cons]
      omega
  | .chained _ hbranch => by
      have hlength := hbranch.length_lt
      simp only [List.length_cons]
      omega

theorem Phrase.AllSpelled.length_le {tokens rest : List Token} {phrases : List Phrase} :
    Phrase.AllSpelled tokens phrases rest → rest.length ≤ tokens.length
  | .nil => Nat.le_refl _
  | .cons hphrase hothers => by
      have hfirst := hphrase.length_lt
      have hlength := hothers.length_le
      omega

end

theorem Declaration.AllSpelled.length_le {tokens rest : List Token}
    {declarations : List Declaration}
    (hspelled : Declaration.AllSpelled tokens declarations rest) :
    rest.length ≤ tokens.length := by
  induction hspelled with
  | nil => exact Nat.le_refl _
  | cons hdeclaration _ ih =>
      have hfirst := hdeclaration.length_lt
      omega

theorem Program.Source.Spelled.length_lt {tokens rest : List Token} {program : Source}
    (hspelled : Source.Spelled tokens program rest) : rest.length < tokens.length := by
  cases hspelled with
  | mk _ _ hdeclarations hphrases _ _ =>
      have hfirst := hdeclarations.length_le
      have hsecond := hphrases.length_le
      simp only [List.length_cons] at hsecond ⊢
      omega

end BeginCode
