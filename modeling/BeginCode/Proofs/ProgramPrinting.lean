import BeginCode.Proofs.ExprPrinting
import BeginCode.Proofs.ProgramReading

/-!
# Printing programs

A program in canonical form is printed on one line and read back as it is. Nothing separates one
statement from the next, so a statement ends where the first token of the next one does not go on
with it.
-/

namespace BeginCode

open BeginCode.Token (Kind)
open BeginCode.Expr (Level)

/-! ### Printing -/

def Token.comma (line : Nat) : Token := .fixed line .comma ","

/-- Items with commas between them. -/
def listed {α : Type} (line : Nat) (print : α → List Token) (first : α) : List α → List Token
  | [] => print first
  | next :: others => print first ++ Token.comma line :: listed line print next others

def ValueType.kind : ValueType → Kind
  | int => .kwInt
  | char => .kwChar
  | bool => .kwBool
  | float => .kwFloat
  | string => .kwString

namespace Declarator

def onLine (line : Nat) (declarator : Declarator) : Declarator :=
  ⟨declarator.name.onLine line, declarator.initializer.map (Expr.onLine line)⟩

def print (line : Nat) (declarator : Declarator) : List Token :=
  declarator.name.onLine line ::
    match declarator.initializer with
    | none => []
    | some value => .fixed line .equals "=" :: value.print line

def canonical (declarator : Declarator) : Bool :=
  declarator.name.kind = .identifier && declarator.initializer.all (Expr.fits .assignment)

end Declarator

namespace Declaration

def onLine (line : Nat) (declaration : Declaration) : Declaration :=
  ⟨declaration.type, declaration.first.onLine line,
    declaration.others.map (Declarator.onLine line)⟩

def print (line : Nat) (declaration : Declaration) : List Token :=
  .fixed line declaration.type.kind declaration.type.keyword ::
    listed line (Declarator.print line) declaration.first declaration.others

def canonical (declaration : Declaration) : Bool :=
  (declaration.first :: declaration.others).all Declarator.canonical

end Declaration

namespace Initializer

def onLine (line : Nat) : Initializer → Initializer
  | declared type declarator => .declared type (declarator.onLine line)
  | expression expr => .expression (expr.onLine line)

def print (line : Nat) : Initializer → List Token
  | declared type declarator => .fixed line type.kind type.keyword :: declarator.print line
  | expression expr => expr.print line

def canonical : Initializer → Bool
  | declared _ declarator => declarator.canonical
  | expression expr => expr.fits .assignment

end Initializer

/-- The kinds that go on with an expression although they can also begin one. -/
def Token.Kind.isSign : Kind → Bool
  | plus | minus | lineBreak => true
  | _ => false

mutual

def Phrase.onLine (line : Nat) : Phrase → Phrase
  | .display value _ => .display (value.onLine line) line
  | .scan first others _ => .scan (first.onLine line) (others.map (Token.onLine line)) line
  | .expression expr => .expression (expr.onLine line)
  | .conditional branch => .conditional (branch.onLine line)
  | .loop condition body _ => .loop (condition.onLine line) (body.onLine line) line
  | .forLoop initializer condition increment body _ =>
      .forLoop (initializer.map (Initializer.onLine line)) (condition.map (Expr.onLine line))
        (increment.map (Expr.onLine line)) (body.onLine line) line

def Body.onLine (line : Nat) : Body → Body
  | .mk phrases _ => .mk (Phrase.onLineAll line phrases) line

def Branch.onLine (line : Nat) : Branch → Branch
  | .mk condition body otherwise _ =>
      .mk (condition.onLine line) (body.onLine line) (otherwise.onLine line) line

def Otherwise.onLine (line : Nat) : Otherwise → Otherwise
  | .nothing => .nothing
  | .body body => .body (body.onLine line)
  | .chained branch => .chained (branch.onLine line)

def Phrase.onLineAll (line : Nat) : List Phrase → List Phrase
  | [] => []
  | phrase :: others => phrase.onLine line :: Phrase.onLineAll line others

end

mutual

def Phrase.print (line : Nat) : Phrase → List Token
  | .display value _ =>
      .fixed line .kwDisplay "DISPLAY" :: .fixed line .colon ":" :: value.print line
  | .scan first others _ =>
      .fixed line .kwScan "SCAN" :: .fixed line .colon ":" ::
        listed line (fun name => [name.onLine line]) first others
  | .expression expr => expr.print line
  | .conditional branch => branch.print line
  | .loop condition body _ =>
      .fixed line .kwWhile "WHILE" :: .fixed line .leftParen "(" :: (condition.print line ++
        .fixed line .rightParen ")" :: body.print line .kwWhile "WHILE")
  | .forLoop initializer condition increment body _ =>
      .fixed line .kwFor "FOR" :: .fixed line .leftParen "(" ::
        ((initializer.map (Initializer.print line)).getD [] ++ .fixed line .semicolon ";" ::
          ((condition.map (Expr.print line)).getD [] ++ .fixed line .semicolon ";" ::
            ((increment.map (Expr.print line)).getD [] ++ .fixed line .rightParen ")" ::
              body.print line .kwFor "FOR")))

/-- A body between `BEGIN` and `END` of its keyword. -/
def Body.print (line : Nat) (kind : Kind) (keyword : String) : Body → List Token
  | .mk phrases _ =>
      .fixed line .kwBegin "BEGIN" :: .fixed line kind keyword :: (Phrase.printAll line phrases ++
        [.fixed line .kwEnd "END", .fixed line kind keyword])

def Branch.print (line : Nat) : Branch → List Token
  | .mk condition body otherwise _ =>
      .fixed line .kwIf "IF" :: .fixed line .leftParen "(" :: (condition.print line ++
        .fixed line .rightParen ")" :: (body.print line .kwIf "IF" ++ otherwise.print line))

def Otherwise.print (line : Nat) : Otherwise → List Token
  | .nothing => []
  | .body body => .fixed line .kwElse "ELSE" :: body.print line .kwIf "IF"
  | .chained branch => .fixed line .kwElse "ELSE" :: branch.print line

def Phrase.printAll (line : Nat) : List Phrase → List Token
  | [] => []
  | phrase :: others => phrase.print line ++ Phrase.printAll line others

end

mutual

/-- A phrase in canonical form: names are identifiers, expressions need no parentheses, and an
expression that is a statement of its own does not begin with a sign. -/
def Phrase.canonical : Phrase → Bool
  | .display value _ => value.fits .assignment
  | .scan first others _ => (first :: others).all (·.kind = .identifier)
  | .expression expr =>
      expr.fits .assignment && !((expr.print expr.line).headD .pastEnd).kind.isSign
  | .conditional branch => branch.canonical
  | .loop condition body _ => condition.fits .assignment && body.canonical
  | .forLoop initializer condition increment body _ =>
      initializer.all Initializer.canonical && condition.all (Expr.fits .assignment) &&
        increment.all (Expr.fits .assignment) && body.canonical

def Body.canonical : Body → Bool
  | .mk phrases _ => Phrase.allCanonical phrases

def Branch.canonical : Branch → Bool
  | .mk condition body otherwise _ =>
      condition.fits .assignment && body.canonical && otherwise.canonical

def Otherwise.canonical : Otherwise → Bool
  | .nothing => true
  | .body body => body.canonical
  | .chained branch => branch.canonical

def Phrase.allCanonical : List Phrase → Bool
  | [] => true
  | phrase :: others => phrase.canonical && Phrase.allCanonical others

end

namespace Program.Source

def onLine (line : Nat) (program : Source) : Source :=
  ⟨program.declarations.map (Declaration.onLine line), Phrase.onLineAll line program.phrases, line⟩

def print (line : Nat) (program : Source) : List Token :=
  .fixed line .kwBegin "BEGIN" :: .fixed line .kwCode "CODE" ::
    (program.declarations.flatMap (Declaration.print line) ++
      (Phrase.printAll line program.phrases ++
        [.fixed line .kwEnd "END", .fixed line .kwCode "CODE"]))

def canonical (program : Source) : Bool :=
  program.declarations.all Declaration.canonical && Phrase.allCanonical program.phrases

end Program.Source

/-! ### Where a statement ends -/

/-- The kinds of tokens that go on with a statement before them. -/
def Token.Kind.goesOn (kind : Kind) : Bool :=
  Level.assignment.continues kind || kind == .comma || kind == .kwElse

/-- Tokens at which every statement before them has ended. -/
def Ends (tokens : List Token) : Prop := (tokens.headD .pastEnd).kind.goesOn = false

theorem Ends.ends_all {tokens : List Token} (hends : Ends tokens) :
    Level.assignment.continues (tokens.headD .pastEnd).kind = false ∧
      (tokens.headD .pastEnd).kind ≠ .comma ∧ (tokens.headD .pastEnd).kind ≠ .kwElse := by
  simpa [Ends, Token.Kind.goesOn, and_assoc] using hends

theorem ends_of_beginsPhrase {token : Token} (hbegins : token.kind.beginsPhrase = true)
    (hsign : token.kind.isSign = false) (rest : List Token) : Ends (token :: rest) := by
  rw [Ends, List.headD_cons]
  generalize token.kind = kind at *
  revert hbegins hsign
  cases kind <;> decide

theorem ends_print_expr {expr : Expr} (hfits : expr.fits .assignment = true)
    (hsign : ((expr.print expr.line).headD .pastEnd).kind.isSign = false) (line : Nat)
    (rest : List Token) : Ends (expr.print line ++ rest) := by
  obtain ⟨first, others, hprint, hbegins⟩ := (Expr.derives_print hfits line rest).begins
  have hkind := expr.kind_head_print line expr.line rest []
  rw [hprint, List.headD_cons, List.append_nil] at hkind
  rw [hprint]
  exact ends_of_beginsPhrase (Token.Kind.beginsPhrase_of_operand hbegins) (hkind ▸ hsign) others

theorem Phrase.ends_print {phrase : Phrase} (hcanonical : phrase.canonical = true) (line : Nat)
    (rest : List Token) : Ends (phrase.print line ++ rest) := by
  cases phrase with
  | expression expr =>
      simp only [Phrase.canonical, Bool.and_eq_true, Bool.not_eq_true'] at hcanonical
      exact ends_print_expr hcanonical.1 hcanonical.2 line rest
  | conditional branch =>
      obtain ⟨condition, body, otherwise, _⟩ := branch
      exact ends_of_beginsPhrase rfl rfl _
  | _ => exact ends_of_beginsPhrase rfl rfl _

theorem Phrase.ends_printAll {phrases : List Phrase}
    (hcanonical : Phrase.allCanonical phrases = true)
    (line : Nat) {rest : List Token} (hrest : Ends rest) :
    Ends (Phrase.printAll line phrases ++ rest) := by
  cases phrases with
  | nil => exact hrest
  | cons phrase others =>
      simp only [Phrase.allCanonical, Bool.and_eq_true] at hcanonical
      rw [Phrase.printAll, List.append_assoc]
      exact phrase.ends_print hcanonical.1 line _

theorem Declaration.ends_print (declaration : Declaration) (line : Nat) (rest : List Token) :
    Ends (declaration.print line ++ rest) := by
  obtain ⟨type, first, others⟩ := declaration
  cases type <;> rfl

/-! ### What is printed is spelled -/

theorem spelled_listed {α β : Type} {item : List Token → β → List Token → Prop} {line : Nat}
    {print : α → List Token} {onLine : α → β} {first : α} {others : List α}
    (hitem : ∀ written ∈ first :: others, ∀ rest : List Token,
      Level.assignment.continues (rest.headD .pastEnd).kind = false →
        item (print written ++ rest) (onLine written) rest)
    {rest : List Token} (hrest : Ends rest) :
    Listed item (listed line print first others ++ rest) ((first :: others).map onLine) rest := by
  induction others generalizing first with
  | nil => exact .last (hitem first (by simp) rest hrest.ends_all.1) hrest.ends_all.2.1
  | cons next others ih =>
      have hfirst := hitem first (by simp)
        (Token.comma line :: (listed line print next others ++ rest)) rfl
      have hothers := ih fun written hmem => hitem written (List.mem_cons_of_mem _ hmem)
      rw [listed, List.append_assoc]
      exact .more hfirst rfl hothers

theorem Declarator.spelled_print {declarator : Declarator}
    (hcanonical : declarator.canonical = true) (line : Nat) (rest : List Token)
    (hrest : Level.assignment.continues (rest.headD .pastEnd).kind = false) :
    Declarator.Spelled (declarator.print line ++ rest) (declarator.onLine line) rest := by
  obtain ⟨name, initializer⟩ := declarator
  simp only [Declarator.canonical, Bool.and_eq_true, decide_eq_true_eq] at hcanonical
  have hname : (name.onLine line).kind = .identifier := hcanonical.1
  cases initializer with
  | none =>
      have hnext : (rest.headD .pastEnd).kind ≠ .equals := by
        intro hequals
        rw [hequals] at hrest
        cases hrest
      exact .plain hname hnext
  | some value => exact .initialized hname rfl (Expr.spelled_print hcanonical.2 line hrest)

theorem ValueType.valueType?_kind (type : ValueType) : type.kind.valueType? = some type := by
  cases type <;> rfl

theorem Declaration.spelled_print {declaration : Declaration}
    (hcanonical : declaration.canonical = true) (line : Nat) {rest : List Token}
    (hrest : Ends rest) :
    Declaration.Spelled (declaration.print line ++ rest) (declaration.onLine line) rest := by
  obtain ⟨type, first, others⟩ := declaration
  rw [Declaration.canonical, List.all_eq_true] at hcanonical
  exact .mk type.valueType?_kind (spelled_listed
    (fun declarator hmem => Declarator.spelled_print (hcanonical declarator hmem) line) hrest)

theorem Declaration.allSpelled_print {declarations : List Declaration}
    (hcanonical : declarations.all Declaration.canonical = true) (line : Nat) {rest : List Token}
    (hrest : Ends rest) :
    Declaration.AllSpelled (declarations.flatMap (Declaration.print line) ++ rest)
      (declarations.map (Declaration.onLine line)) rest := by
  induction declarations with
  | nil => exact .nil
  | cons declaration others ih =>
      simp only [List.all_cons, Bool.and_eq_true] at hcanonical
      have hends : Ends (others.flatMap (Declaration.print line) ++ rest) := by
        cases others with
        | nil => exact hrest
        | cons next more =>
            rw [List.flatMap_cons, List.append_assoc]
            exact next.ends_print line _
      rw [List.flatMap_cons, List.append_assoc]
      exact .cons (Declaration.spelled_print hcanonical.1 line hends) (ih hcanonical.2)

theorem Initializer.spelled_print {initializer : Initializer}
    (hcanonical : initializer.canonical = true) (line : Nat) (rest : List Token)
    (hrest : Level.assignment.continues (rest.headD .pastEnd).kind = false) :
    Initializer.Spelled (initializer.print line ++ rest) (initializer.onLine line) rest := by
  cases initializer with
  | declared type declarator =>
      exact .declared type.valueType?_kind
        (Declarator.spelled_print hcanonical line rest hrest)
  | expression expr => exact .expression (Expr.spelled_print hcanonical line hrest)

theorem clause_print {α β : Type} {item : List Token → β → List Token → Prop} {line : Nat}
    {print : α → List Token} {onLine : α → β} {canonical : α → Bool} {found : Option α}
    (hitem : ∀ {written : α}, canonical written = true → ∀ rest : List Token,
      Level.assignment.continues (rest.headD .pastEnd).kind = false →
        item (print written ++ rest) (onLine written) rest)
    (hcanonical : found.all canonical = true) {closing : Kind} {lexeme : String}
    (hclosing : Level.assignment.continues closing = false) (rest : List Token) :
    Clause item closing ((found.map print).getD [] ++ .fixed line closing lexeme :: rest)
      (found.map onLine) rest := by
  cases found with
  | none => exact .empty rfl
  | some written => exact .filled (hitem hcanonical _ hclosing) rfl

mutual

theorem Phrase.spelled_print (line : Nat) {rest : List Token} (hrest : Ends rest) :
    {phrase : Phrase} → phrase.canonical = true →
      Phrase.Spelled (phrase.print line ++ rest) (phrase.onLine line) rest
  | .display value _, hcanonical =>
      .display rfl rfl (Expr.spelled_print hcanonical line hrest.ends_all.1)
  | .scan first others _, hcanonical => by
      rw [Phrase.canonical, List.all_eq_true] at hcanonical
      refine .scan rfl rfl (spelled_listed (fun name hmem more _ => ⟨rfl, ?_⟩) hrest)
      exact of_decide_eq_true (hcanonical name hmem)
  | .expression expr, hcanonical => by
      simp only [Phrase.canonical, Bool.and_eq_true] at hcanonical
      exact .expression (Expr.spelled_print hcanonical.1 line hrest.ends_all.1)
  | .conditional branch, hcanonical => .conditional (Branch.spelled_print line hrest hcanonical)
  | .loop condition body _, hcanonical => by
      simp only [Phrase.canonical, Bool.and_eq_true] at hcanonical
      have hbody := Body.spelled_print line .kwWhile "WHILE" rest hcanonical.2
      rw [Phrase.print, List.cons_append, List.cons_append, List.append_assoc]
      exact .loop rfl rfl (Expr.spelled_print hcanonical.1 line rfl) rfl hbody
  | .forLoop initializer condition increment body _, hcanonical => by
      simp only [Phrase.canonical, Bool.and_eq_true] at hcanonical
      obtain ⟨⟨⟨hinitializer, hcondition⟩, hincrement⟩, hbody⟩ := hcanonical
      have hbody := Body.spelled_print line .kwFor "FOR" rest hbody
      have hexpr : ∀ {expr : Expr}, expr.fits .assignment = true → ∀ rest : List Token,
          Level.assignment.continues (rest.headD .pastEnd).kind = false →
            Expr.Spelled (expr.print line ++ rest) (expr.onLine line) rest :=
        fun hfits _ hnext => Expr.spelled_print hfits line hnext
      simp only [Phrase.print, List.cons_append, List.append_assoc]
      exact .forLoop rfl rfl
        (clause_print (fun hwritten => Initializer.spelled_print hwritten line) hinitializer rfl _)
        (clause_print hexpr hcondition rfl _) (clause_print hexpr hincrement rfl _) hbody

theorem Body.spelled_print (line : Nat) (kind : Kind) (keyword : String) (rest : List Token) :
    {body : Body} → body.canonical = true →
      Body.Spelled kind (body.print line kind keyword ++ rest) (body.onLine line) rest
  | .mk phrases _, hcanonical => by
      have hphrases := Phrase.allSpelled_print line
        (show Ends (.fixed line .kwEnd "END" :: .fixed line kind keyword :: rest) from rfl)
        hcanonical
      rw [Body.print, List.cons_append, List.cons_append, List.append_assoc]
      exact .mk rfl rfl hphrases rfl rfl

theorem Branch.spelled_print (line : Nat) {rest : List Token} (hrest : Ends rest) :
    {branch : Branch} → branch.canonical = true →
      Branch.Spelled (branch.print line ++ rest) (branch.onLine line) rest
  | .mk condition body otherwise _, hcanonical => by
      simp only [Branch.canonical, Bool.and_eq_true] at hcanonical
      obtain ⟨⟨hcondition, hbody⟩, hotherwise⟩ := hcanonical
      have hbody := Body.spelled_print line .kwIf "IF" (otherwise.print line ++ rest) hbody
      have hotherwise := Otherwise.spelled_print line hrest hotherwise
      simp only [Branch.print, List.cons_append, List.append_assoc]
      exact .mk rfl rfl (Expr.spelled_print hcondition line rfl) rfl hbody hotherwise

theorem Otherwise.spelled_print (line : Nat) {rest : List Token} (hrest : Ends rest) :
    {otherwise : Otherwise} → otherwise.canonical = true →
      Otherwise.Spelled (otherwise.print line ++ rest) (otherwise.onLine line) rest
  | .nothing, _ => .nothing hrest.ends_all.2.2
  | .body _, hcanonical => .body rfl (Body.spelled_print line .kwIf "IF" rest hcanonical)
  | .chained _, hcanonical => .chained rfl (Branch.spelled_print line hrest hcanonical)

theorem Phrase.allSpelled_print (line : Nat) {rest : List Token} (hrest : Ends rest) :
    {phrases : List Phrase} → Phrase.allCanonical phrases = true →
      Phrase.AllSpelled (Phrase.printAll line phrases ++ rest) (Phrase.onLineAll line phrases) rest
  | [], _ => .nil
  | phrase :: others, hcanonical => by
      simp only [Phrase.allCanonical, Bool.and_eq_true] at hcanonical
      rw [Phrase.printAll, List.append_assoc]
      exact .cons (Phrase.spelled_print line (Phrase.ends_printAll hcanonical.2 line hrest)
        hcanonical.1) (Phrase.allSpelled_print line hrest hcanonical.2)

end

namespace Program

theorem Source.spelled_print {program : Source} (hcanonical : program.canonical = true)
    (line : Nat) (rest : List Token) :
    Source.Spelled (program.print line ++ rest) (program.onLine line) rest := by
  simp only [Source.canonical, Bool.and_eq_true] at hcanonical
  have hends : Ends (.fixed line .kwEnd "END" :: .fixed line .kwCode "CODE" :: rest) := rfl
  have hphrases := Phrase.allSpelled_print line hends hcanonical.2
  have hdeclarations := Declaration.allSpelled_print hcanonical.1 line
    (Phrase.ends_printAll hcanonical.2 line hends)
  simp only [Source.print, List.cons_append, List.append_assoc]
  exact .mk rfl rfl hdeclarations hphrases rfl rfl

/-- A program in canonical form is read back as it was printed. -/
theorem parse_print {program : Source} (hcanonical : program.canonical = true) (line : Nat)
    {last : Token} (hlast : last.kind = .endOfInput) :
    parse (program.print line ++ [last]) .empty = ([(program.onLine line).lower], .empty) :=
  parse_complete .empty (Source.spelled_print hcanonical line [last]) hlast

/-- `INT n = 1 + 2 * 3`, then a `FOR` with nothing but an increment around an `ELSE IF` chain and a
statement that begins with a parenthesis. -/
def chained : Source :=
  let n : Token := ⟨.identifier, "n", 1, none⟩
  let number (k : Int64) : Expr := .literal (.integer k) 1
  let sum : Expr := .binary (.arithmetic .add) (number 1)
    (.binary (.arithmetic .mul) (number 2) (number 3) 1) 1
  let last : Branch :=
    .mk (.unary .not (.variable n) 4) (.mk [.scan n [n] 5] 5) (.body (.mk [] 6)) 4
  let first : Branch := .mk (.variable n) (.mk [] 3) (.chained last) 3
  { declarations := [⟨.int, ⟨n, some sum⟩, [⟨n, none⟩]⟩]
    phrases := [.forLoop none none (some (.assign n (.unary .negate (.variable n) 2)))
      (.mk [.conditional first, .expression (.grouping sum 7)] 2) 2]
    line := 1 }

theorem parse_print_chained :
    chained.canonical = true ∧
      parse (chained.print 9 ++ [.fixed 9 .endOfInput ""]) .empty =
        ([(chained.onLine 9).lower], .empty) :=
  ⟨by decide, parse_print (by decide) 9 rfl⟩

end Program

end BeginCode
