import BeginCode.Proofs.Completion

/-!
# What is assigned to

In a program every equals sign follows the name of a variable, and no operator before that name
takes the name as its operand. So if tokens are the beginning of a program, no assignment in them
has another target than a variable.
-/

namespace BeginCode

open BeginCode.Token (Kind)

/-! ### Operators and their operands -/

/-- The kinds of tokens that can have an operand to their right, the equals sign apart. -/
def Token.Kind.takesOperand (kind : Kind) : Bool :=
  kind.join?.isSome || (Expr.prefixed? kind).isSome

/-- The kinds of tokens that neither assign nor take an operand. -/
def Token.Kind.inert (kind : Kind) : Bool := kind != .equals && !kind.takesOperand

namespace Token

/-- Whether the token takes what comes next as its operand. -/
def binds (token : Token) (rest : List Token) : Bool :=
  token.kind.takesOperand && (token.kind != .lineBreak || token.hasOperand rest)

variable {token : Token} {rest other : List Token}

theorem binds_of_kind (hkind : token.kind.takesOperand = false) : token.binds rest = false := by
  rw [binds, hkind, Bool.false_and]

theorem binds_lineBreak (hkind : token.kind = .lineBreak)
    (hoperand : token.hasOperand rest = false) : token.binds rest = false := by
  simp [binds, hkind, hoperand]

theorem binds_of_operand (hkind : token.kind.takesOperand = true)
    (hoperand : token.kind = .lineBreak → token.hasOperand rest = true) :
    token.binds rest = true := by
  by_cases hbreak : token.kind = .lineBreak
  · simp [binds, hkind, hoperand hbreak]
  · simp [binds, hkind, hbreak]

theorem binds_eq (hhead : other.headD .pastEnd = rest.headD .pastEnd) :
    token.binds other = token.binds rest := by
  rw [binds, binds, hasOperand_eq hhead]

theorem takesOperand_of_literal {value : Value} (hvalue : token.literalValue? = some value) :
    token.kind.takesOperand = false ∧ token.kind ≠ .equals := by
  unfold literalValue? at hvalue
  generalize token.kind = kind at hvalue
  cases kind <;> first | exact ⟨rfl, by decide⟩ | cases hvalue

end Token

/-! ### Tokens in order -/

/-- The last of the tokens before does not take what comes next as its operand. -/
def Settled (before rest : List Token) : Prop :=
  ∀ front last, before = front ++ [last] → last.binds rest = false

/-- Every equals sign among the used tokens follows a name that no operator takes. -/
def Placed (before used rest : List Token) : Prop :=
  ∀ front equals after, used = front ++ equals :: after → equals.kind = .equals →
    ∃ start name, before ++ front = start ++ [name] ∧ name.kind = .identifier ∧
      Settled start (name :: equals :: (after ++ rest))

variable {before used first second tokens middle rest : List Token} {token name equals : Token}

theorem settled_nil : Settled [] rest := by
  intro front last hlast
  cases front <;> cases hlast

theorem settled_append (hbinds : token.binds rest = false) : Settled (before ++ [token]) rest := by
  intro front last hlast
  obtain ⟨-, hlast⟩ := List.append_inj' hlast rfl
  cases hlast
  exact hbinds

theorem placed_nil : Placed before [] rest := by
  intro front equals after hsplit
  cases front <;> cases hsplit

theorem Placed.append (hfirst : Placed before first (second ++ rest))
    (hsecond : Placed (before ++ first) second rest) : Placed before (first ++ second) rest := by
  intro front equals after hsplit hequals
  rcases List.append_eq_append_iff.mp hsplit with ⟨more, rfl, hmore⟩ | ⟨more, rfl, hmore⟩
  · obtain ⟨start, name, hstart, hname⟩ := hsecond more equals after hmore hequals
    rw [List.append_assoc] at hstart
    exact ⟨start, name, hstart, hname⟩
  · cases more with
    | nil =>
        obtain ⟨start, name, hstart, hname⟩ := hsecond [] equals after hmore.symm hequals
        rw [List.append_nil, List.append_nil] at hstart
        exact ⟨start, name, hstart, hname⟩
    | cons other more =>
        obtain ⟨rfl, rfl⟩ := List.cons.inj hmore
        obtain ⟨start, name, hstart, hname, hsettled⟩ := hfirst front equals more rfl hequals
        rw [← List.append_assoc] at hsettled
        exact ⟨start, name, hstart, hname, hsettled⟩

theorem placed_token (hkind : token.kind ≠ .equals) : Placed before [token] rest := by
  intro front equals after hsplit hequals
  cases front with
  | nil =>
      cases hsplit
      exact absurd hequals hkind
  | cons other front =>
      obtain ⟨-, hnil⟩ := List.cons.inj hsplit
      cases front <;> cases hnil

theorem placed_target (hname : name.kind = .identifier)
    (hsettled : Settled before (name :: equals :: rest)) : Placed before [name, equals] rest := by
  intro front other after hsplit hother
  cases front with
  | nil =>
      cases hsplit
      rw [hname] at hother
      cases hother
  | cons first front =>
      obtain ⟨rfl, hsplit⟩ := List.cons.inj hsplit
      cases front with
      | nil =>
          cases hsplit
          exact ⟨before, name, rfl, hname, hsettled⟩
      | cons second front =>
          obtain ⟨-, hnil⟩ := List.cons.inj hsplit
          cases front <;> cases hnil

/-- The used tokens are in order after the ones before, and the last of all takes nothing of the
rest. -/
structure Orderly (before used rest : List Token) : Prop where
  placed : Placed before used rest
  settled : Settled (before ++ used) rest

theorem Placed.orderly (hfirst : Placed before first (second ++ rest))
    (hsecond : Orderly (before ++ first) second rest) : Orderly before (first ++ second) rest := by
  refine ⟨hfirst.append hsecond.placed, ?_⟩
  rw [← List.append_assoc]
  exact hsecond.settled

theorem orderly_token (hkind : token.kind ≠ .equals) (hbinds : token.binds rest = false) :
    Orderly before [token] rest :=
  ⟨placed_token hkind, settled_append hbinds⟩

/-- Up to the rest the tokens are in order, wherever they can begin. -/
def Tidy (tokens rest : List Token) : Prop :=
  ∀ before, Settled before tokens → ∃ used, tokens = used ++ rest ∧ Orderly before used rest

theorem Tidy.refl (tokens : List Token) : Tidy tokens tokens := by
  intro before hsettled
  refine ⟨[], rfl, placed_nil, ?_⟩
  rw [List.append_nil]
  exact hsettled

theorem Tidy.trans (hfirst : Tidy tokens middle) (hsecond : Tidy middle rest) :
    Tidy tokens rest := by
  intro before hsettled
  obtain ⟨used, rfl, hused⟩ := hfirst before hsettled
  obtain ⟨more, rfl, hmore⟩ := hsecond (before ++ used) hused.settled
  exact ⟨used ++ more, by rw [List.append_assoc], hused.placed.orderly hmore⟩

theorem tidy_token {kind : Kind} (hkind : token.kind = kind) (hinert : kind.inert = true) :
    Tidy (token :: rest) rest := by
  subst hkind
  simp only [Kind.inert, Bool.and_eq_true, bne_iff_ne, ne_eq, Bool.not_eq_true'] at hinert
  exact fun before _ => ⟨[token], rfl, orderly_token hinert.1 (Token.binds_of_kind hinert.2)⟩

theorem tidy_target (hname : name.kind = .identifier) (hequals : equals.kind = .equals) :
    Tidy (name :: equals :: rest) rest := by
  intro before hsettled
  have hbinds : equals.binds rest = false := Token.binds_of_kind (by rw [hequals]; rfl)
  refine ⟨[name, equals], rfl, placed_target hname hsettled, ?_⟩
  rw [List.append_cons]
  exact settled_append hbinds

/-! ### What is written is in order -/

namespace Expr

theorem Level.tighter_ne_assignment (level : Level) : level.tighter ≠ .assignment := by
  cases level <;> decide

theorem Level.ne_assignment_of_join {kind : Kind} {level : Level} {join : Join}
    (hlevel : kind.operatorLevel? = some level) (hjoin : kind.join? = some join) :
    level ≠ .assignment := by
  rintro rfl
  cases kind <;> first | cases hlevel; cases hjoin | cases hlevel

theorem ne_equals_of_join {kind : Kind} {join : Join} (hjoin : kind.join? = some join) :
    kind ≠ .equals := by
  rintro rfl
  cases hjoin

theorem ne_equals_of_prefixed {kind : Kind} {op : UnaryOp} (hop : prefixed? kind = some op) :
    kind ≠ .equals := by
  rintro rfl
  cases hop

/-- Only an expression that can be an assignment depends on what stands before it. -/
theorem Derives.orderly {level : Level} {expr : Expr} (hderives : Derives level tokens expr rest)
    (before : List Token) (hsettled : level = .assignment → Settled before tokens) :
    ∃ used, tokens = used ++ rest ∧ Orderly before used rest := by
  -- The operands of an operator are no assignments, so that it does not matter what takes them.
  induction hderives generalizing before with
  | @assign name equals _ _ _ hname hequals _ ih =>
      obtain ⟨front, hfront, htarget⟩ := tidy_target hname hequals before (hsettled rfl)
      obtain rfl : [name, equals] = front := List.append_cancel_right hfront
      obtain ⟨used, rfl, hused⟩ := ih _ fun _ => htarget.settled
      exact ⟨name :: equals :: used, rfl, htarget.placed.orderly hused⟩
  | @loosen level _ _ _ _ _ ih =>
      exact ih before fun htighter => absurd htighter level.tighter_ne_assignment
  | @join level operator _ _ _ _ _ _ _ hlevel hjoin _ _ ihLeft ihRight =>
      obtain ⟨used, rfl, hleft⟩ := ihLeft before fun hassignment =>
        absurd hassignment (Level.ne_assignment_of_join hlevel hjoin)
      obtain ⟨more, rfl, hright⟩ := ihRight ((before ++ used) ++ [operator]) fun htighter =>
        absurd htighter level.tighter_ne_assignment
      have hoperator := (placed_token (ne_equals_of_join hjoin)).orderly hright
      exact ⟨used ++ operator :: more, by simp, hleft.placed.orderly hoperator⟩
  | @joinNothing operator _ rest _ _ hkind hoperand ih =>
      obtain ⟨used, rfl, hleft⟩ := ih before nofun
      have hoperator : Orderly (before ++ used) [operator] rest :=
        orderly_token (by rw [hkind]; decide) (Token.binds_lineBreak hkind hoperand)
      exact ⟨used ++ [operator], by simp, hleft.placed.orderly hoperator⟩
  | @prefixed operator _ _ _ _ hop _ _ ih =>
      obtain ⟨used, rfl, hoperand⟩ := ih (before ++ [operator]) nofun
      exact ⟨operator :: used, rfl, (placed_token (ne_equals_of_prefixed hop)).orderly hoperand⟩
  | @lineBreak operator _ hkind hoperand =>
      exact ⟨[operator], rfl,
        orderly_token (by rw [hkind]; decide) (Token.binds_lineBreak hkind hoperand)⟩
  | @literal token _ _ hvalue =>
      obtain ⟨hoperand, hequals⟩ := Token.takesOperand_of_literal hvalue
      exact ⟨[token], rfl, orderly_token hequals (Token.binds_of_kind hoperand)⟩
  | @named name _ hname =>
      exact ⟨[name], rfl, orderly_token (by rw [hname]; decide)
        (Token.binds_of_kind (by rw [hname]; rfl))⟩
  | @grouping opening closing _ rest _ hopening _ hclosing ih =>
      obtain ⟨used, rfl, hinner⟩ := ih (before ++ [opening]) fun _ =>
        settled_append (Token.binds_of_kind (by rw [hopening]; rfl))
      have hclose : Orderly ((before ++ [opening]) ++ used) [closing] rest :=
        orderly_token (by rw [hclosing]; decide) (Token.binds_of_kind (by rw [hclosing]; rfl))
      refine ⟨opening :: (used ++ [closing]), by simp, ?_⟩
      exact (placed_token (by rw [hopening]; decide)).orderly (hinner.placed.orderly hclose)

theorem Spelled.tidy {expr : Expr} (hspelled : Spelled tokens expr rest) : Tidy tokens rest :=
  fun before hsettled => hspelled.1.orderly before fun _ => hsettled

end Expr

section Items

variable {α : Type} {item : List Token → α → List Token → Prop}
  (hitem : ∀ {tokens found rest}, item tokens found rest → Tidy tokens rest)

include hitem

theorem Listed.tidy {found : List α} (hlisted : Listed item tokens found rest) :
    Tidy tokens rest := by
  induction hlisted with
  | last hfirst _ => exact hitem hfirst
  | more hfirst hcomma _ ih => exact (hitem hfirst).trans ((tidy_token hcomma rfl).trans ih)

theorem Clause.tidy {closing : Kind} (hinert : closing.inert = true) {found : Option α}
    (hclause : Clause item closing tokens found rest) : Tidy tokens rest := by
  cases hclause with
  | empty hclose => exact tidy_token hclose hinert
  | filled hfilled hclose => exact (hitem hfilled).trans (tidy_token hclose hinert)

end Items

theorem Token.Named.tidy (hnamed : Token.Named tokens name rest) : Tidy tokens rest := by
  rw [hnamed.1]
  exact tidy_token hnamed.2 rfl

theorem tidy_type {type : ValueType} (htype : token.kind.valueType? = some type) :
    Tidy (token :: rest) rest := by
  refine tidy_token rfl ?_
  generalize token.kind = kind at htype
  cases kind <;> first | rfl | cases htype

theorem Declarator.Spelled.tidy {declarator : Declarator}
    (hspelled : Declarator.Spelled tokens declarator rest) : Tidy tokens rest := by
  cases hspelled with
  | plain hname _ => exact tidy_token hname rfl
  | initialized hname hequals hvalue => exact (tidy_target hname hequals).trans hvalue.tidy

theorem Declaration.Spelled.tidy {declaration : Declaration}
    (hspelled : Declaration.Spelled tokens declaration rest) : Tidy tokens rest := by
  cases hspelled with
  | mk hkeyword hnames => exact (tidy_type hkeyword).trans (hnames.tidy Declarator.Spelled.tidy)

theorem Declaration.AllSpelled.tidy {declarations : List Declaration}
    (hspelled : Declaration.AllSpelled tokens declarations rest) : Tidy tokens rest := by
  induction hspelled with
  | nil => exact .refl _
  | cons hdeclaration _ ih => exact hdeclaration.tidy.trans ih

theorem Initializer.Spelled.tidy {initializer : Initializer}
    (hspelled : Initializer.Spelled tokens initializer rest) : Tidy tokens rest := by
  cases hspelled with
  | declared hkeyword hdeclarator => exact (tidy_type hkeyword).trans hdeclarator.tidy
  | expression hexpr => exact hexpr.tidy

mutual

theorem Phrase.Spelled.tidy {tokens rest : List Token} {phrase : Phrase} :
    Phrase.Spelled tokens phrase rest → Tidy tokens rest
  | .display hkeyword hcolon hvalue =>
      (tidy_token hkeyword rfl).trans ((tidy_token hcolon rfl).trans hvalue.tidy)
  | .scan hkeyword hcolon hnames =>
      (tidy_token hkeyword rfl).trans
        ((tidy_token hcolon rfl).trans (hnames.tidy Token.Named.tidy))
  | .expression hexpr => hexpr.tidy
  | .conditional hbranch => hbranch.tidy
  | .loop hkeyword hopening hcondition hclosing hbody =>
      (tidy_token hkeyword rfl).trans ((tidy_token hopening rfl).trans
        (hcondition.tidy.trans ((tidy_token hclosing rfl).trans (hbody.tidy rfl))))
  | .forLoop hkeyword hopening hinitializer hcondition hincrement hbody =>
      (tidy_token hkeyword rfl).trans ((tidy_token hopening rfl).trans
        ((hinitializer.tidy Initializer.Spelled.tidy rfl).trans
          ((hcondition.tidy Expr.Spelled.tidy rfl).trans
            ((hincrement.tidy Expr.Spelled.tidy rfl).trans (hbody.tidy rfl)))))

theorem Body.Spelled.tidy {keyword : Kind} {tokens rest : List Token} {body : Body}
    (hinert : keyword.inert = true) : Body.Spelled keyword tokens body rest → Tidy tokens rest
  | .mk hopening hopened hphrases hending hended =>
      (tidy_token hopening rfl).trans ((tidy_token hopened hinert).trans
        (hphrases.tidy.trans ((tidy_token hending rfl).trans (tidy_token hended hinert))))

theorem Branch.Spelled.tidy {tokens rest : List Token} {branch : Branch} :
    Branch.Spelled tokens branch rest → Tidy tokens rest
  | .mk hkeyword hopening hcondition hclosing hbody hotherwise =>
      (tidy_token hkeyword rfl).trans ((tidy_token hopening rfl).trans
        (hcondition.tidy.trans ((tidy_token hclosing rfl).trans
          ((hbody.tidy rfl).trans hotherwise.tidy))))

theorem Otherwise.Spelled.tidy {tokens rest : List Token} {otherwise : Otherwise} :
    Otherwise.Spelled tokens otherwise rest → Tidy tokens rest
  | .nothing _ => .refl _
  | .body hkeyword hbody => (tidy_token hkeyword rfl).trans (hbody.tidy rfl)
  | .chained hkeyword hbranch => (tidy_token hkeyword rfl).trans hbranch.tidy

theorem Phrase.AllSpelled.tidy {tokens rest : List Token} {phrases : List Phrase} :
    Phrase.AllSpelled tokens phrases rest → Tidy tokens rest
  | .nil => .refl _
  | .cons hphrase hothers => hphrase.tidy.trans hothers.tidy

end

theorem Program.Source.Spelled.tidy {program : Program.Source}
    (hspelled : Program.Source.Spelled tokens program rest) : Tidy tokens rest := by
  cases hspelled with
  | mk hopening hopened hdeclarations hphrases hending hended =>
      exact (tidy_token hopening rfl).trans ((tidy_token hopened rfl).trans
        (hdeclarations.tidy.trans (hphrases.tidy.trans
          ((tidy_token hending rfl).trans (tidy_token hended rfl)))))

/-! ### Other targets than variables -/

theorem eq_of_append_last {front : List Token} {last : Token}
    (heq : front ++ last :: rest = before ++ name :: rest) : front = before ∧ last = name := by
  rw [List.append_cons, List.append_cons before] at heq
  obtain ⟨hfront, hlast⟩ := List.append_inj' (List.append_cancel_right heq) rfl
  exact ⟨hfront, (List.cons.inj hlast).1⟩

namespace Expr

/-- The name is taken by an operator that stands directly before it. -/
def TakenAfter (before : List Token) (name : Token) (rest : List Token) : Prop :=
  ∃ front operator, before = front ++ [operator] ∧ operator.binds (name :: rest) = true

/-- The operand of an operator ends with a name: the operator takes it, or one in the operand. -/
theorem takenAfter_operator {front more : List Token} {operator : Token} {operand : Expr}
    (hmore : more ≠ []) (hbinds : operator.binds (more ++ rest) = true)
    (htokens : front ++ operator :: (more ++ rest) = before ++ name :: rest)
    (hends : ∀ before, more ++ rest = before ++ name :: rest →
      (before = [] ∧ operand = .variable name) ∨ TakenAfter before name rest) :
    TakenAfter before name rest := by
  obtain ⟨init, last, rfl⟩ : ∃ init last, more = init ++ [last] :=
    ⟨_, _, (List.dropLast_concat_getLast hmore).symm⟩
  have heq : (front ++ operator :: init) ++ last :: rest = before ++ name :: rest := by
    simpa using htokens
  obtain ⟨rfl, rfl⟩ := eq_of_append_last heq
  rcases hends init (by simp) with ⟨rfl, -⟩ | ⟨inside, other, rfl, hother⟩
  · exact ⟨front, operator, rfl, hbinds⟩
  · exact ⟨front ++ operator :: inside, other, by simp, hother⟩

theorem Derives.exists_used {level : Level} {expr : Expr}
    (hderives : Derives level tokens expr rest) : ∃ used, tokens = used ++ rest ∧ used ≠ [] := by
  obtain ⟨used, rfl, -⟩ := local_derives level expr hderives
  refine ⟨used, rfl, ?_⟩
  rintro rfl
  exact absurd hderives.length_lt (Nat.lt_irrefl _)

/-- An expression that ends with a name is this variable, or an operator takes the name. -/
theorem Derives.ends_with_name {level : Level} {expr : Expr}
    (hderives : Derives level tokens expr rest) (hlevel : level ≠ .assignment)
    (htokens : tokens = before ++ name :: rest) (hname : name.kind = .identifier) :
    (before = [] ∧ expr = .variable name) ∨ TakenAfter before name rest := by
  -- A last token of another kind is not the name.
  have hlast {front before rest : List Token} {last : Token}
      (heq : front ++ last :: rest = before ++ name :: rest) : last.kind = .identifier := by
    rw [(eq_of_append_last heq).2, hname]
  induction hderives generalizing before with
  | assign => exact absurd rfl hlevel
  | @loosen level _ _ _ _ _ ih => exact ih level.tighter_ne_assignment htokens
  | @join level operator _ _ _ _ _ _ hleft _ hjoin hoperand hright _ ihRight =>
      obtain ⟨used, rfl, -⟩ := hleft.exists_used
      obtain ⟨more, rfl, hmore⟩ := hright.exists_used
      have htakes : operator.kind.takesOperand = true := by
        rw [Kind.takesOperand, hjoin]
        rfl
      exact .inr (takenAfter_operator hmore (Token.binds_of_operand htakes hoperand) htokens
        fun _ => ihRight level.tighter_ne_assignment)
  | joinNothing hleft hkind _ _ =>
      obtain ⟨used, rfl, -⟩ := hleft.exists_used
      exact absurd (hkind.symm.trans (hlast htokens)) (by decide)
  | @prefixed operator _ _ _ _ hop hfollows hoperand ih =>
      obtain ⟨more, rfl, hmore⟩ := hoperand.exists_used
      have htakes : operator.kind.takesOperand = true := by
        rw [Kind.takesOperand, hop, Option.isSome_some, Bool.or_true]
      have hfront : [] ++ operator :: (more ++ _) = before ++ name :: _ := htokens
      exact .inr (takenAfter_operator hmore (Token.binds_of_operand htakes hfollows) hfront
        fun _ => ih (by decide))
  | @lineBreak operator rest hkind _ =>
      have hfront : [] ++ operator :: rest = before ++ name :: rest := htokens
      exact absurd (hkind.symm.trans (hlast hfront)) (by decide)
  | @literal token rest _ hvalue =>
      have hfront : [] ++ token :: rest = before ++ name :: rest := htokens
      rw [Token.literalValue?, hlast hfront] at hvalue
      cases hvalue
  | @named token rest _ =>
      have hfront : [] ++ token :: rest = before ++ name :: rest := htokens
      obtain ⟨rfl, rfl⟩ := eq_of_append_last hfront
      exact .inl ⟨rfl, rfl⟩
  | @grouping opening closing _ rest _ _ hinner hclosing _ =>
      obtain ⟨used, rfl, -⟩ := hinner.exists_used
      have hfront : (opening :: used) ++ closing :: rest = before ++ name :: rest := htokens
      exact absurd (hclosing.symm.trans (hlast hfront)) (by decide)

end Expr

/-- In tokens that are in order no assignment has another target than a variable. -/
theorem Placed.not_misplaced (hplaced : Placed [] (used ++ second) rest) :
    ¬Expr.Misplaced used := by
  rintro ⟨before, target, equals, after, expr, rfl, hequals, hderives, hother⟩
  have hsplit : (before ++ (target ++ equals :: after)) ++ second =
      (before ++ target) ++ equals :: (after ++ second) := by simp
  obtain ⟨start, name, hstart, hname, hsettled⟩ := hplaced _ _ _ hsplit hequals
  obtain ⟨used, hused, hnonempty⟩ := hderives.exists_used
  obtain rfl : target = used := List.append_cancel_right hused
  obtain ⟨init, last, rfl⟩ : ∃ init last, target = init ++ [last] :=
    ⟨_, _, (List.dropLast_concat_getLast hnonempty).symm⟩
  rw [List.nil_append, ← List.append_assoc] at hstart
  obtain ⟨rfl, hlast⟩ := List.append_inj' hstart rfl
  cases hlast
  have htarget : (init ++ [name]) ++ [equals] = init ++ name :: [equals] := by simp
  rcases hderives.ends_with_name (by decide) htarget hname with ⟨-, hvariable⟩ |
    ⟨front, operator, rfl, hbinds⟩
  · exact hother name hvariable
  · have hfree := hsettled (before ++ front) operator (by rw [List.append_assoc])
    have hsame : operator.binds (name :: equals :: ((after ++ second) ++ rest)) =
        operator.binds [name, equals] := Token.binds_eq rfl
    rw [hsame, hbinds] at hfree
    cases hfree

end BeginCode
