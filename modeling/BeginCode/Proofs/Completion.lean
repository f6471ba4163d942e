import BeginCode.Proofs.FirstError

/-!
# Completing what has been read

When a reading fails silently, the tokens that it has consumed can be completed: further tokens make
a construct of them, unless a value is being assigned to something other than a variable, which is
reported only after the value. A construct looks at most at the first token after it. So what has
been read stays read when the tokens after it are replaced by others that begin in the same way, or
with a token that goes on with nothing.
-/

namespace BeginCode

open BeginCode.Token (Kind)
open BeginCode.Reading

/-! ### Shapes -/

/-- The kinds of tokens that go on with nothing and only close what is open. -/
def Token.Kind.closes : Kind → Bool
  | kwEnd | rightParen | semicolon => true
  | _ => false

def Closing (tokens : List Token) : Prop := (tokens.headD .pastEnd).kind.closes = true

theorem closing_of_kind {kind : Kind} (hcloses : kind.closes = true) (token : Token)
    (rest : List Token) (hkind : token.kind = kind) : Closing (token :: rest) := by
  unfold Closing
  rw [List.headD_cons, hkind, hcloses]

/-- Tokens that begin alike but for what comes after some of them. -/
theorem headD_append {used : List Token} (hused : used ≠ []) (rest other : List Token) :
    (used ++ other).headD .pastEnd = (used ++ rest).headD .pastEnd := by
  cases used with
  | nil => exact absurd rfl hused
  | cons token used => rfl

/-- The tokens before and after a construct. -/
abbrev Shape := List Token → List Token → Prop

namespace Shape

/-- The shape of what a grammar describes. -/
def ofGrammar {α : Type} (grammar : List Token → α → List Token → Prop) : Shape :=
  fun tokens rest => ∃ result, grammar tokens result rest

def nothing : Shape := fun tokens rest => tokens = rest

def one (kind : Kind) : Shape :=
  fun tokens rest => ∃ token, tokens = token :: rest ∧ token.kind = kind

def next (first second : Shape) : Shape :=
  fun tokens rest => ∃ middle, first tokens middle ∧ second middle rest

/-- A token of the kind and what comes after it, or nothing at all before tokens that close. -/
def optional (kind : Kind) (shape : Shape) : Shape :=
  fun tokens rest => (one kind).next shape tokens rest ∨ (tokens = rest ∧ Closing rest)

/-- The shape after a token that has been consumed already. -/
def behind (token : Token) (shape : Shape) : Shape :=
  fun tokens rest => shape (token :: tokens) rest

/-- The other tokens begin as the rest does, or as `follow` says. -/
abbrev Fits (follow : List Token → Prop) (rest other : List Token) : Prop :=
  other.headD .pastEnd = rest.headD .pastEnd ∨ follow other

/-- What follows a construct can be replaced by other tokens that fit. -/
def Local (shape : Shape) (follow : List Token → Prop) : Prop :=
  ∀ ⦃tokens rest : List Token⦄, shape tokens rest →
    ∃ used, tokens = used ++ rest ∧ ∀ other, Fits follow rest other → shape (used ++ other) other

/-- Further tokens complete the used ones to a construct, before all tokens that begin as `follow`
says. If there are none used, what is added begins as `start` says. -/
def Completes (shape : Shape) (start follow : List Token → Prop) (used : List Token) : Prop :=
  ∃ added, ∀ rest, follow rest →
    shape (used ++ (added ++ rest)) rest ∧ (used = [] → start (added ++ rest))

variable {shape other first second : Shape} {start follow middle : List Token → Prop}
  {used : List Token}

theorem Completes.of_imp (hcompletes : shape.Completes start follow used)
    (himp : ∀ tokens rest, follow rest → shape tokens rest → other tokens rest) :
    other.Completes start follow used := by
  obtain ⟨added, hadded⟩ := hcompletes
  refine ⟨added, fun rest hrest => ?_⟩
  obtain ⟨hshape, hstart⟩ := hadded rest hrest
  exact ⟨himp _ _ hrest hshape, hstart⟩

theorem completes_nothing (hstart : ∀ tokens, follow tokens → start tokens) :
    nothing.Completes start follow [] :=
  ⟨[], fun rest hrest => ⟨rfl, fun _ => hstart rest hrest⟩⟩

theorem completes_one {kind : Kind}
    (hstart : ∀ token rest, token.kind = kind → start (token :: rest)) :
    (one kind).Completes start follow [] := by
  refine ⟨[⟨kind, "", 0, none⟩], fun rest _ => ⟨⟨_, rfl, rfl⟩, fun _ => ?_⟩⟩
  exact hstart _ rest rfl

theorem completes_token (kind : Kind) : (one kind).Completes (fun _ => True) follow [] :=
  completes_one fun _ _ _ => trivial

theorem completes_next (hfirst : first.Completes start middle used)
    (hsecond : second.Completes middle follow []) :
    (first.next second).Completes start follow used := by
  obtain ⟨added, hadded⟩ := hfirst
  obtain ⟨more, hmore⟩ := hsecond
  refine ⟨added ++ more, fun rest hrest => ?_⟩
  obtain ⟨hshape, hmiddle⟩ := hmore rest hrest
  obtain ⟨hbefore, hstart⟩ := hadded (more ++ rest) (hmiddle rfl)
  rw [List.append_assoc]
  exact ⟨⟨more ++ rest, hbefore, hshape⟩, hstart⟩

theorem completes_optional (kind : Kind) (shape : Shape) :
    (shape.optional kind).Completes Closing Closing [] :=
  ⟨[], fun _ hclosing => ⟨.inr ⟨rfl, hclosing⟩, fun _ => hclosing⟩⟩

theorem Completes.anyStart (hcompletes : shape.Completes start follow used) :
    shape.Completes (fun _ => True) follow used := by
  obtain ⟨added, hadded⟩ := hcompletes
  exact ⟨added, fun rest hrest => ⟨(hadded rest hrest).1, fun _ => trivial⟩⟩

theorem local_ofGrammar {α : Type} {grammar : List Token → α → List Token → Prop}
    (hgrammar : ∀ result, Shape.Local (fun tokens rest => grammar tokens result rest) follow) :
    (ofGrammar grammar).Local follow := by
  rintro tokens rest ⟨result, hresult⟩
  obtain ⟨used, hused, hother⟩ := hgrammar result hresult
  exact ⟨used, hused, fun other hfits => ⟨result, hother other hfits⟩⟩

/-- What comes after a construct can be completed where it stands. -/
theorem completes_behind {front more tail : List Token} (hlocal : shape.Local middle)
    (hshape : shape (front ++ (more ++ tail)) (more ++ tail))
    (hmore : other.Completes middle follow more) :
    (shape.next other).Completes (fun _ => True) follow (front ++ more) := by
  obtain ⟨used, hused, hother⟩ := hlocal hshape
  obtain rfl := List.append_cancel_right hused
  obtain ⟨added, hadded⟩ := hmore
  refine ⟨added, fun rest hrest => ?_⟩
  obtain ⟨hafter, hstart⟩ := hadded rest hrest
  rw [List.append_assoc]
  refine ⟨⟨more ++ (added ++ rest), hother _ ?_, hafter⟩, fun _ => trivial⟩
  by_cases hnil : more = []
  · subst hnil
    exact .inr (hstart rfl)
  · exact .inl (headD_append hnil _ _)

theorem Fits.append {rest other : List Token} (hfits : Fits follow rest other) (more : List Token) :
    Fits follow (more ++ rest) (more ++ other) := by
  by_cases hmore : more = []
  · subst hmore
    exact hfits
  · exact .inl (headD_append hmore rest other)

theorem local_next (hfirst : first.Local follow) (hsecond : second.Local follow) :
    (first.next second).Local follow := by
  rintro tokens rest ⟨middle, hbefore, hafter⟩
  obtain ⟨used, rfl, hreplaced⟩ := hfirst hbefore
  obtain ⟨more, rfl, hother⟩ := hsecond hafter
  refine ⟨used ++ more, by simp, fun other hfits => ?_⟩
  rw [List.append_assoc]
  exact ⟨more ++ other, hreplaced _ (hfits.append more), hother other hfits⟩

end Shape

/-! ### Replacing what follows an expression -/

namespace Token

variable {symbol : Token} {rest other : List Token}

theorem hasOperand_eq (hhead : other.headD .pastEnd = rest.headD .pastEnd) :
    symbol.hasOperand other = symbol.hasOperand rest := by
  rw [hasOperand, hasOperand, hhead]

theorem hasOperand_of_closing (hclosing : Closing other) : symbol.hasOperand other = false := by
  unfold Closing at hclosing
  have hkind : (other.headD .pastEnd).kind.beginsOperand = false := by
    generalize (other.headD .pastEnd).kind = kind at hclosing
    cases kind <;> first | rfl | cases hclosing
  rw [hasOperand, hkind, Bool.and_false]

theorem hasOperand_of_fits (hnothing : symbol.hasOperand rest = false)
    (hfits : Shape.Fits Closing rest other) : symbol.hasOperand other = false := by
  rcases hfits with hhead | hclosing
  · rw [hasOperand_eq hhead, hnothing]
  · exact hasOperand_of_closing hclosing

end Token

namespace Expr

theorem Level.not_continues_of_closing (level : Level) {tokens : List Token}
    (hclosing : Closing tokens) : level.continues (tokens.headD .pastEnd).kind = false := by
  unfold Closing at hclosing
  generalize (tokens.headD .pastEnd).kind = kind at hclosing
  cases kind <;> first | rfl | cases hclosing

theorem local_derives (level : Level) (expr : Expr) :
    Shape.Local (fun tokens rest => Derives level tokens expr rest) Closing := by
  intro tokens rest hderives
  induction hderives with
  | assign hname hequals _ ih =>
      obtain ⟨used, rfl, hother⟩ := ih
      exact ⟨_ :: _ :: used, rfl, fun other hfits => .assign hname hequals (hother other hfits)⟩
  | loosen hlevel _ ih =>
      obtain ⟨used, rfl, hother⟩ := ih
      exact ⟨used, rfl, fun other hfits => .loosen hlevel (hother other hfits)⟩
  | @join _ operator _ _ rest _ _ _ _ hlevel hjoin hoperand hright ihLeft ihRight =>
      obtain ⟨used, rfl, hleft⟩ := ihLeft
      obtain ⟨more, rfl, hother⟩ := ihRight
      have hmore : more ≠ [] := by
        rintro rfl
        exact absurd hright.length_lt (Nat.lt_irrefl _)
      refine ⟨used ++ operator :: more, by simp, fun other hfits => ?_⟩
      rw [List.append_assoc, List.cons_append]
      refine .join (hleft _ (.inl rfl)) hlevel hjoin (fun hkind => ?_) (hother other hfits)
      rw [Token.hasOperand_eq (headD_append hmore rest other)]
      exact hoperand hkind
  | @joinNothing operator _ rest _ _ hkind hoperand ih =>
      obtain ⟨used, rfl, hleft⟩ := ih
      refine ⟨used ++ [operator], by simp, fun other hfits => ?_⟩
      rw [List.append_assoc]
      exact .joinNothing (hleft _ (.inl rfl)) hkind (Token.hasOperand_of_fits hoperand hfits)
  | @prefixed operator _ rest _ _ hop hfollows hoperand ih =>
      obtain ⟨used, rfl, hother⟩ := ih
      have hused : used ≠ [] := by
        rintro rfl
        exact absurd hoperand.length_lt (Nat.lt_irrefl _)
      refine ⟨operator :: used, rfl, fun other hfits => ?_⟩
      rw [List.cons_append]
      refine .prefixed hop (fun hkind => ?_) (hother other hfits)
      rw [Token.hasOperand_eq (headD_append hused rest other)]
      exact hfollows hkind
  | @lineBreak operator _ hkind hoperand =>
      exact ⟨[operator], rfl, fun other hfits =>
        .lineBreak hkind (Token.hasOperand_of_fits hoperand hfits)⟩
  | @literal token _ _ hvalue => exact ⟨[token], rfl, fun _ _ => .literal hvalue⟩
  | @named name _ hname => exact ⟨[name], rfl, fun _ _ => .named hname⟩
  | @grouping opening closing _ _ _ hopening _ hclosing ih =>
      obtain ⟨used, rfl, hother⟩ := ih
      refine ⟨opening :: (used ++ [closing]), by simp, fun other _ => ?_⟩
      rw [List.cons_append, List.append_assoc]
      exact .grouping hopening (hother _ (.inl rfl)) hclosing

theorem local_spelled (expr : Expr) :
    Shape.Local (fun tokens rest => Spelled tokens expr rest) Closing := by
  rintro tokens rest ⟨hderives, hnext⟩
  obtain ⟨used, hused, hother⟩ := local_derives .assignment expr hderives
  refine ⟨used, hused, fun other hfits => ⟨hother other hfits, ?_⟩⟩
  rcases hfits with hhead | hclosing
  · rw [hhead]
    exact hnext
  · exact Level.assignment.not_continues_of_closing hclosing

/-- An assignment in the tokens has another target than a variable. -/
def Misplaced (tokens : List Token) : Prop :=
  ∃ before target equals after expr, tokens = before ++ (target ++ equals :: after) ∧
    equals.kind = .equals ∧ Derives .disjunction (target ++ [equals]) expr [equals] ∧
    ∀ name, expr ≠ .variable name

theorem Misplaced.append_left {tokens : List Token} (hmisplaced : Misplaced tokens)
    (front : List Token) : Misplaced (front ++ tokens) := by
  obtain ⟨before, target, equals, after, expr, rfl, hassign⟩ := hmisplaced
  exact ⟨front ++ before, target, equals, after, expr, by rw [List.append_assoc], hassign⟩

end Expr

/-! ### Readings that fail -/

namespace Reading

variable {α β : Type} {cursor later : Cursor} {error : SyntaxError}

/-- What has been used up to a failure is what was used before the reading and by it. -/
theorem Fails.split {reading : Reading α} [forward : Forward reading]
    {tokens front used : List Token} (hfails : reading.Fails cursor error later)
    (hfront : tokens = front ++ cursor.rest) (hused : tokens = used ++ later.rest) :
    ∃ more, cursor.rest = more ++ later.rest ∧ used = front ++ more := by
  have hleads := forward.leadsTo cursor
  rw [final_of_error hfails.1] at hleads
  obtain ⟨more, hmore, -⟩ := hleads.rest
  refine ⟨more, hmore, ?_⟩
  rw [hfront, hmore, ← List.append_assoc] at hused
  exact (List.append_cancel_right hused).symm

/-- A reading fails in its first part or, after that, in the second. -/
theorem fails_bind {first : Reading α} {next : α → Reading β} [forward : Forward first]
    [forwardNext : ∀ result, Forward (next result)]
    (hfails : (first >>= next).Fails cursor error later) :
    first.Fails cursor error later ∨
      ∃ found between, first.Reads cursor found between ∧
        (next found).Fails between error later := by
  obtain ⟨hrun, hreport⟩ := hfails
  rw [EStateM.run_bind] at hrun
  cases hfirst : first.run cursor with
  | error thrown between =>
      rw [hfirst] at hrun
      cases hrun
      exact .inl ⟨hfirst, hreport⟩
  | ok found between =>
      rw [hfirst] at hrun
      have hbefore : cursor.LeadsTo between := final_of_ok hfirst ▸ forward.leadsTo cursor
      have hafter : between.LeadsTo later :=
        final_of_error hrun ▸ (forwardNext found).leadsTo between
      have hsame := hbefore.report_eq hafter hreport
      exact .inr ⟨found, between, ⟨hfirst, hsame⟩, hrun, hreport.trans hsame.symm⟩

theorem fails_head_bind {next : Token → Reading β} :
    (head >>= next).Fails cursor error later ↔ (next cursor.head).Fails cursor error later := .rfl

theorem not_fails_pure {value : α} : ¬(pure value : Reading α).Fails cursor error later := by
  rintro ⟨hrun, -⟩
  cases hrun

theorem not_fails_accept {kind : Kind} : ¬(accept kind).Fails cursor error later := by
  rintro ⟨hrun, -⟩
  rw [run_accept] at hrun
  split at hrun <;> cases hrun

theorem fails_of_advance {next : Unit → Reading α} {token : Token} {tokens : List Token}
    (hrest : cursor.rest = token :: tokens) (hnotEnd : token.kind ≠ .endOfInput)
    (hfails : (advance >>= next).Fails cursor error later) :
    (next ()).Fails (cursor.goTo tokens) error later := by
  rw [← Cursor.advance_cons hrest hnotEnd]
  exact ⟨hfails.1, hfails.2.trans cursor.report_advance.symm⟩

theorem fails_expect {kind : Kind} {message : String}
    (hfails : (expect kind message).Fails cursor error later) : later = cursor := by
  obtain ⟨hrun, -⟩ := hfails
  rw [run_expect] at hrun
  split at hrun <;> cases hrun
  rfl

/-! ### Readings whose tokens can be completed -/

/-- Where the reading fails silently, what it has consumed can be completed, unless an assignment in
it has another target than a variable. -/
def Viable (reading : Reading α) (cursor : Cursor) (shape : Shape)
    (start follow : List Token → Prop) : Prop :=
  ∀ ⦃error : SyntaxError⦄ ⦃later : Cursor⦄ ⦃used : List Token⦄, reading.Fails cursor error later →
    cursor.rest = used ++ later.rest → ¬Expr.Misplaced used → shape.Completes start follow used

variable {shape other : Shape} {start middle follow : List Token → Prop}

theorem Viable.of_imp {reading : Reading α} (hviable : reading.Viable cursor shape start follow)
    (himp : ∀ tokens rest, follow rest → shape tokens rest → other tokens rest) :
    reading.Viable cursor other start follow :=
  fun _ _ _ hfails hused hclean => (hviable hfails hused hclean).of_imp himp

/-- How what is added begins matters only where nothing has been used. -/
theorem Viable.anyStart {reading : Reading α} (hviable : reading.Viable cursor shape start follow) :
    reading.Viable cursor shape (fun _ => True) follow :=
  fun _ _ _ hfails hused hclean => (hviable hfails hused hclean).anyStart

/-- Where nothing has been used, all of what is added can be chosen. -/
theorem Viable.orNothing {reading : Reading α} (hfresh : shape.Completes start follow [])
    (hviable : reading.Viable cursor shape (fun _ => True) follow) :
    reading.Viable cursor shape start follow := by
  intro error later used hfails hused hclean
  by_cases hnothing : used = []
  · rw [hnothing]
    exact hfresh
  · obtain ⟨added, hadded⟩ := hviable hfails hused hclean
    exact ⟨added, fun rest hrest => ⟨(hadded rest hrest).1, fun hnil => absurd hnil hnothing⟩⟩

theorem viable_pure {value : α} : (pure value : Reading α).Viable cursor shape start follow :=
  fun _ _ _ hfails => absurd hfails not_fails_pure

theorem viable_get_bind {next : Cursor → Reading α}
    (hnext : (next cursor).Viable cursor shape start follow) :
    ((get : Reading Cursor) >>= next).Viable cursor shape start follow := hnext

theorem viable_head_bind {next : Token → Reading α}
    (hnext : (next cursor.head).Viable cursor shape start follow) :
    (head >>= next).Viable cursor shape start follow := hnext

theorem viable_ite {condition : Prop} [Decidable condition] {first second : Reading α}
    (hfirst : condition → first.Viable cursor shape start follow)
    (hsecond : ¬condition → second.Viable cursor shape start follow) :
    (if condition then first else second).Viable cursor shape start follow := by
  by_cases hcondition : condition
  · rw [if_pos hcondition]
    exact hfirst hcondition
  · rw [if_neg hcondition]
    exact hsecond hcondition

/-- A reading that fails where it stands consumes nothing. -/
theorem viable_fail {cause : Token → SyntaxCause} (hfresh : shape.Completes start follow []) :
    (fail cause : Reading α).Viable cursor shape start follow := by
  rintro error later used ⟨hrun, -⟩ hused -
  rw [run_fail] at hrun
  cases hrun
  rw [List.self_eq_append_left.mp hused]
  exact hfresh

/-- What has been reported stays in the report, so that nothing fails silently after it. -/
theorem viable_report_bind {cause : SyntaxCause} {line : Nat} {next : Unit → Reading α}
    [∀ result, Forward (next result)] :
    (report cause line >>= next).Viable cursor shape start follow := by
  intro error later used hfails
  rcases fails_bind hfails with ⟨hrun, -⟩ | ⟨_, _, hreads, -⟩
  · cases hrun
  · exact absurd hreads not_reads_report

theorem viable_advance_bind {next : Unit → Reading α} [∀ result, Forward (next result)]
    {token : Token} {tokens : List Token} (hrest : cursor.rest = token :: tokens)
    (hnotEnd : token.kind ≠ .endOfInput)
    (hnext : (next ()).Viable (cursor.goTo tokens) (shape.behind token) (fun _ => True) follow) :
    (advance >>= next).Viable cursor shape start follow := by
  intro error later used hfails hused hclean
  have hmoved := fails_of_advance hrest hnotEnd hfails
  have hfront : cursor.rest = [token] ++ (cursor.goTo tokens).rest := hrest
  obtain ⟨more, hmore, rfl⟩ := hmoved.split hfront hused
  obtain ⟨added, hadded⟩ := hnext hmoved hmore fun hmisplaced =>
    hclean (hmisplaced.append_left [token])
  exact ⟨added, fun rest hfollow => ⟨(hadded rest hfollow).1, fun hnil => by cases hnil⟩⟩

/-- What never fails needs no completing. -/
theorem viable_bind_quiet {first : Reading α} {next : α → Reading β} [Forward first]
    [∀ result, Forward (next result)]
    (hquiet : ∀ found between error later, ¬(next found).Fails between error later)
    (hfirst : first.Viable cursor shape start follow) :
    (first >>= next).Viable cursor shape start follow := by
  intro error later used hfails hused hclean
  rcases fails_bind hfails with hfails | ⟨found, between, -, hfails⟩
  · exact hfirst hfails hused hclean
  · exact absurd hfails (hquiet found between error later)

theorem viable_bind_pure {first : Reading α} {value : α → β} [Forward first]
    (hfirst : first.Viable cursor shape start follow) :
    (first >>= fun found => pure (value found)).Viable cursor shape start follow :=
  viable_bind_quiet (fun _ _ _ _ => not_fails_pure) hfirst

/-- After a part that is complete, only what comes next needs completing. -/
theorem viable_then {first : Reading α} {next : α → Reading β} [Forward first]
    [∀ result, Forward (next result)] (hlocal : shape.Local middle)
    (hfirst : first.Viable cursor shape start middle)
    (hnext : ∀ found between, first.Reads cursor found between →
      shape cursor.rest between.rest ∧ (next found).Viable between other middle follow)
    (hfresh : other.Completes middle follow []) :
    (first >>= next).Viable cursor (shape.next other) (fun _ => True) follow := by
  intro error later used hfails hused hclean
  rcases fails_bind hfails with hfails | ⟨found, between, hreads, hfails⟩
  · exact (Shape.completes_next (hfirst hfails hused hclean) hfresh).anyStart
  · obtain ⟨hshape, hviable⟩ := hnext found between hreads
    obtain ⟨front, hfront, -⟩ := hreads.leadsTo.rest
    obtain ⟨more, hmore, rfl⟩ := hfails.split hfront hused
    have hcompletes := hviable hfails hmore fun hmisplaced => hclean (hmisplaced.append_left front)
    rw [hfront, hmore] at hshape
    exact Shape.completes_behind hlocal hshape hcompletes

/-- Where the reading is silent, it takes up tokens of the shape. -/
def Consumes (reading : Reading α) (cursor : Cursor) (shape : Shape) : Prop :=
  ∀ ⦃found : α⦄ ⦃later : Cursor⦄, reading.Reads cursor found later →
    ∃ rest, shape cursor.rest rest ∧ later = cursor.goTo rest

theorem Follows.consumes {reading : Reading α} {grammar : List Token → α → List Token → Prop}
    (hfollows : reading.Follows cursor grammar)
    (himp : ∀ tokens found rest, grammar tokens found rest → shape tokens rest) :
    reading.Consumes cursor shape := by
  intro found later hreads
  obtain ⟨rest, hgrammar, rfl⟩ := hfollows.reads_iff.mp hreads
  exact ⟨rest, himp _ _ _ hgrammar, rfl⟩

theorem viable_bind {first : Reading α} {next : α → Reading β} [Forward first]
    [∀ result, Forward (next result)] (hconsumes : first.Consumes cursor shape)
    (hlocal : shape.Local middle) (hfirst : first.Viable cursor shape start middle)
    (hnext : ∀ found rest, rest.length ≤ cursor.rest.length →
      (next found).Viable (cursor.goTo rest) other middle follow)
    (hfresh : other.Completes middle follow []) :
    (first >>= next).Viable cursor (shape.next other) (fun _ => True) follow := by
  refine viable_then hlocal hfirst (fun found between hreads => ?_) hfresh
  have hlength := hreads.leadsTo.length_le
  obtain ⟨rest, hshape, rfl⟩ := hconsumes hreads
  exact ⟨hshape, hnext found rest hlength⟩

theorem viable_expect {kind : Kind} {message : String} :
    (expect kind message).Viable cursor (.one kind) (fun _ => True) follow := by
  intro error later used hfails hused _
  obtain rfl := fails_expect hfails
  rw [List.self_eq_append_left.mp hused]
  exact Shape.completes_token kind

theorem viable_expect_bind {kind : Kind} (hkind : kind ≠ .endOfInput) {message : String}
    {next : Token → Reading α} [∀ result, Forward (next result)]
    (hstart : ∀ token rest, token.kind = kind → start (token :: rest))
    (hnext : ∀ token rest, rest.length < cursor.rest.length →
      (next token).Viable (cursor.goTo rest) shape (fun _ => True) follow)
    (hfresh : shape.Completes (fun _ => True) follow []) :
    (expect kind message >>= next).Viable cursor (.next (.one kind) shape) start follow := by
  intro error later used hfails hused hclean
  rcases fails_bind hfails with hfails | ⟨token, between, hreads, hfails⟩
  · obtain rfl := fails_expect hfails
    rw [List.self_eq_append_left.mp hused]
    exact Shape.completes_next (Shape.completes_one hstart) hfresh
  · obtain ⟨htoken, left, hrest, rfl⟩ := (reads_expect hkind).mp hreads
    have hfront : cursor.rest = [token] ++ (cursor.goTo left).rest := hrest
    obtain ⟨more, hmore, rfl⟩ := hfails.split hfront hused
    have hlength : left.length < cursor.rest.length := by
      rw [hrest, List.length_cons]
      omega
    obtain ⟨added, hadded⟩ := hnext token left hlength hfails hmore fun hmisplaced =>
      hclean (hmisplaced.append_left [token])
    refine ⟨added, fun rest hrest => ⟨?_, fun hnil => by cases hnil⟩⟩
    exact ⟨more ++ (added ++ rest), ⟨token, rfl, htoken⟩, (hadded rest hrest).1⟩

/-- Taking a token of a kind if there is one, and then reading on either way. -/
theorem viable_accept {kind : Kind} (hkind : kind ≠ .endOfInput) {taken untaken : Reading α}
    [Forward taken] [Forward untaken]
    (htaken : ∀ token rest, cursor.rest = token :: rest → token.kind = kind →
      taken.Viable (cursor.goTo rest) (shape.behind token) (fun _ => True) follow)
    (huntaken : untaken.Viable cursor shape start follow) :
    (do if ← accept kind then taken else untaken : Reading α).Viable cursor shape start follow := by
  intro error later used hfails hused hclean
  rcases fails_bind hfails with haccept | ⟨found, between, hreads, hbranch⟩
  · exact absurd haccept not_fails_accept
  · rcases (reads_accept hkind).mp hreads with
      ⟨rfl, token, rest, htoken, hrest, rfl⟩ | ⟨rfl, -, rfl⟩
    · have hnotEnd : token.kind ≠ .endOfInput := by
        rw [htoken]
        exact hkind
      have hadvance : (advance >>= fun _ => taken).Fails cursor error later := by
        have hmoved : taken.Fails cursor.advance error later := by
          rw [Cursor.advance_cons hrest hnotEnd]
          exact hbranch
        exact ⟨hmoved.1, hmoved.2.trans cursor.report_advance⟩
      exact viable_advance_bind hrest hnotEnd (htaken token rest hrest htoken) hadvance hused hclean
    · exact huntaken hbranch hused hclean

theorem viable_optional {kind : Kind} (hkind : kind ≠ .endOfInput) {taken : Reading α} {value : α}
    [Forward taken]
    (htaken : ∀ token rest, cursor.rest = token :: rest → token.kind = kind →
      taken.Viable (cursor.goTo rest) shape (fun _ => True) follow) :
    (do if ← accept kind then taken else pure value : Reading α).Viable cursor
      (shape.optional kind) start follow := by
  refine viable_accept hkind (fun token rest hrest htoken => ?_) viable_pure
  refine (htaken token rest hrest htoken).of_imp fun tokens rest _ hshape => ?_
  exact .inl ⟨tokens, ⟨token, rfl, htoken⟩, hshape⟩

end Reading

end BeginCode
