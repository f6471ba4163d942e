import BeginCode.Proofs.ExprCompletion

/-!
# Completing statements

Where reading a statement silently fails, the parts that are missing can be added one after another:
expressions, parentheses, semicolons, the keywords around a body. Nothing after the end of a body
can go on with it. A statement that ends with an expression or with the body of an `IF` is complete
only before a token that closes.
-/

namespace BeginCode

open BeginCode.Token (Kind)
open BeginCode.Reading

/-! ### Replacing what follows a phrase -/

theorem ne_of_closing {kind : Kind} (hcloses : kind.closes = false) {rest : List Token}
    (hclosing : Closing rest) : (rest.headD .pastEnd).kind ≠ kind := by
  rintro rfl
  exact Bool.false_ne_true (hcloses.symm.trans hclosing)

theorem head_ne_of_fits {kind : Kind} (hcloses : kind.closes = false) {rest other : List Token}
    (hnext : (rest.headD .pastEnd).kind ≠ kind) (hfits : Shape.Fits Closing rest other) :
    (other.headD .pastEnd).kind ≠ kind := by
  rcases hfits with hhead | hclosing
  · rw [hhead]
    exact hnext
  · exact ne_of_closing hcloses hclosing

section Items

variable {α : Type} {item : List Token → α → List Token → Prop}
  (hitem : ∀ found, Shape.Local (fun tokens rest => item tokens found rest) Closing)

include hitem

theorem local_listed (found : List α) :
    Shape.Local (fun tokens rest => Listed item tokens found rest) Closing := by
  intro tokens rest hlisted
  induction hlisted with
  | last hfirst hnext =>
      obtain ⟨used, rfl, hother⟩ := hitem _ hfirst
      exact ⟨used, rfl, fun other hfits =>
        .last (hother other hfits) (head_ne_of_fits rfl hnext hfits)⟩
  | @more _ _ _ comma _ _ hfirst hcomma _ ih =>
      obtain ⟨used, rfl, hbefore⟩ := hitem _ hfirst
      obtain ⟨others, rfl, hother⟩ := ih
      refine ⟨used ++ comma :: others, by simp, fun other hfits => ?_⟩
      rw [List.append_assoc, List.cons_append]
      exact .more (hbefore _ (.inl rfl)) hcomma (hother other hfits)

theorem local_clause (closing : Kind) (found : Option α) :
    Shape.Local (fun tokens rest => Clause item closing tokens found rest) fun _ => True := by
  intro tokens rest hclause
  cases hclause with
  | @empty close _ hclose => exact ⟨[close], rfl, fun _ _ => .empty hclose⟩
  | @filled close _ _ _ hfilled hclose =>
      obtain ⟨used, rfl, hother⟩ := hitem _ hfilled
      refine ⟨used ++ [close], by simp, fun other _ => ?_⟩
      rw [List.append_assoc]
      exact .filled (hother _ (.inl rfl)) hclose

end Items

theorem Token.local_named (name : Token) :
    Shape.Local (fun tokens rest => Named tokens name rest) Closing := by
  rintro tokens rest ⟨rfl, hname⟩
  exact ⟨[name], rfl, fun _ _ => ⟨rfl, hname⟩⟩

theorem Declarator.local_spelled (declarator : Declarator) :
    Shape.Local (fun tokens rest => Spelled tokens declarator rest) Closing := by
  intro tokens rest hspelled
  cases hspelled with
  | @plain name _ hname hnext =>
      exact ⟨[name], rfl, fun _ hfits => .plain hname (head_ne_of_fits rfl hnext hfits)⟩
  | @initialized name equals _ _ _ hname hequals hvalue =>
      obtain ⟨used, rfl, hother⟩ := Expr.local_spelled _ hvalue
      exact ⟨name :: equals :: used, rfl, fun other hfits =>
        .initialized hname hequals (hother other hfits)⟩

theorem Declaration.local_spelled (declaration : Declaration) :
    Shape.Local (fun tokens rest => Spelled tokens declaration rest) Closing := by
  intro tokens rest hspelled
  cases hspelled with
  | @mk keyword _ _ _ _ _ hkeyword hnames =>
      obtain ⟨used, rfl, hother⟩ := local_listed Declarator.local_spelled _ hnames
      exact ⟨keyword :: used, rfl, fun other hfits => .mk hkeyword (hother other hfits)⟩

theorem Initializer.local_spelled (initializer : Initializer) :
    Shape.Local (fun tokens rest => Spelled tokens initializer rest) Closing := by
  intro tokens rest hspelled
  cases hspelled with
  | @declared keyword _ _ _ _ hkeyword hdeclarator =>
      obtain ⟨used, rfl, hother⟩ := Declarator.local_spelled _ hdeclarator
      exact ⟨keyword :: used, rfl, fun other hfits => .declared hkeyword (hother other hfits)⟩
  | expression hexpr =>
      obtain ⟨used, rfl, hother⟩ := Expr.local_spelled _ hexpr
      exact ⟨used, rfl, fun other hfits => .expression (hother other hfits)⟩

mutual

theorem Phrase.Spelled.replace {tokens rest : List Token} {phrase : Phrase} :
    Phrase.Spelled tokens phrase rest → ∃ used, tokens = used ++ rest ∧
      ∀ other, Shape.Fits Closing rest other → Phrase.Spelled (used ++ other) phrase other
  | @Phrase.Spelled.display keyword colon _ _ _ hkeyword hcolon hvalue => by
      obtain ⟨used, rfl, hother⟩ := Expr.local_spelled _ hvalue
      exact ⟨keyword :: colon :: used, rfl, fun other hfits =>
        .display hkeyword hcolon (hother other hfits)⟩
  | @Phrase.Spelled.scan keyword colon _ _ _ _ hkeyword hcolon hnames => by
      obtain ⟨used, rfl, hother⟩ := local_listed Token.local_named _ hnames
      exact ⟨keyword :: colon :: used, rfl, fun other hfits =>
        .scan hkeyword hcolon (hother other hfits)⟩
  | .expression hexpr => by
      obtain ⟨used, rfl, hother⟩ := Expr.local_spelled _ hexpr
      exact ⟨used, rfl, fun other hfits => .expression (hother other hfits)⟩
  | .conditional hbranch => by
      obtain ⟨used, rfl, hother⟩ := hbranch.replace
      exact ⟨used, rfl, fun other hfits => .conditional (hother other hfits)⟩
  | @Phrase.Spelled.loop keyword opening closing _ _ _ _ _ hkeyword hopening hcondition hclosing
      hbody => by
      obtain ⟨used, rfl, hbefore⟩ := Expr.local_spelled _ hcondition
      obtain ⟨more, rfl, hother⟩ := hbody.replace
      refine ⟨keyword :: opening :: (used ++ closing :: more), by simp, fun other _ => ?_⟩
      rw [List.cons_append, List.cons_append, List.append_assoc, List.cons_append]
      exact .loop hkeyword hopening (hbefore _ (.inl rfl)) hclosing (hother other)
  | @Phrase.Spelled.forLoop keyword opening _ _ _ _ _ _ _ _ _ hkeyword hopening hinitializer
      hcondition hincrement hbody => by
      obtain ⟨first, rfl, hfirst⟩ := local_clause Initializer.local_spelled _ _ hinitializer
      obtain ⟨second, rfl, hsecond⟩ := local_clause Expr.local_spelled _ _ hcondition
      obtain ⟨third, rfl, hthird⟩ := local_clause Expr.local_spelled _ _ hincrement
      obtain ⟨more, rfl, hother⟩ := hbody.replace
      refine ⟨keyword :: opening :: (first ++ (second ++ (third ++ more))), by simp,
        fun other _ => ?_⟩
      simp only [List.cons_append, List.append_assoc]
      exact .forLoop hkeyword hopening (hfirst _ (.inr trivial)) (hsecond _ (.inr trivial))
        (hthird _ (.inr trivial)) (hother other)

theorem Body.Spelled.replace {keyword : Kind} {tokens rest : List Token} {body : Body} :
    Body.Spelled keyword tokens body rest → ∃ used, tokens = used ++ rest ∧
      ∀ other, Body.Spelled keyword (used ++ other) body other
  | @Body.Spelled.mk _ opening opened ending ended _ _ _ hopening hopened hphrases hending
      hended => by
      obtain ⟨used, rfl, hother⟩ := hphrases.replace
      refine ⟨opening :: opened :: (used ++ [ending, ended]), by simp, fun other => ?_⟩
      rw [List.cons_append, List.cons_append, List.append_assoc]
      exact .mk hopening hopened (hother _ (.inl rfl)) hending hended

theorem Branch.Spelled.replace {tokens rest : List Token} {branch : Branch} :
    Branch.Spelled tokens branch rest → ∃ used, tokens = used ++ rest ∧
      ∀ other, Shape.Fits Closing rest other → Branch.Spelled (used ++ other) branch other
  | @Branch.Spelled.mk keyword opening closing _ _ _ _ _ _ _ hkeyword hopening hcondition hclosing
      hbody hotherwise => by
      obtain ⟨used, rfl, hbefore⟩ := Expr.local_spelled _ hcondition
      obtain ⟨more, rfl, hmiddle⟩ := hbody.replace
      obtain ⟨last, rfl, hother⟩ := hotherwise.replace
      refine ⟨keyword :: opening :: (used ++ closing :: (more ++ last)), by simp,
        fun other hfits => ?_⟩
      simp only [List.cons_append, List.append_assoc]
      exact .mk hkeyword hopening (hbefore _ (.inl rfl)) hclosing (hmiddle _) (hother other hfits)

theorem Otherwise.Spelled.replace {tokens rest : List Token} {otherwise : Otherwise} :
    Otherwise.Spelled tokens otherwise rest → ∃ used, tokens = used ++ rest ∧
      ∀ other, Shape.Fits Closing rest other → Otherwise.Spelled (used ++ other) otherwise other
  | .nothing hnext =>
      ⟨[], rfl, fun _ hfits => .nothing (head_ne_of_fits rfl hnext hfits)⟩
  | @Otherwise.Spelled.body keyword _ _ _ hkeyword hbody => by
      obtain ⟨used, rfl, hother⟩ := hbody.replace
      exact ⟨keyword :: used, rfl, fun other _ => .body hkeyword (hother other)⟩
  | @Otherwise.Spelled.chained keyword _ _ _ hkeyword hbranch => by
      obtain ⟨used, rfl, hother⟩ := hbranch.replace
      exact ⟨keyword :: used, rfl, fun other hfits => .chained hkeyword (hother other hfits)⟩

theorem Phrase.AllSpelled.replace {tokens rest : List Token} {phrases : List Phrase} :
    Phrase.AllSpelled tokens phrases rest → ∃ used, tokens = used ++ rest ∧
      ∀ other, Shape.Fits Closing rest other → Phrase.AllSpelled (used ++ other) phrases other
  | .nil => ⟨[], rfl, fun _ _ => .nil⟩
  | .cons hphrase hothers => by
      obtain ⟨used, rfl, hbefore⟩ := hphrase.replace
      obtain ⟨more, rfl, hother⟩ := hothers.replace
      refine ⟨used ++ more, by simp, fun other hfits => ?_⟩
      rw [List.append_assoc]
      exact .cons (hbefore _ (hfits.append more)) (hother other hfits)

end

theorem Phrase.local_spelled : (Shape.ofGrammar Phrase.Spelled).Local Closing :=
  Shape.local_ofGrammar fun _ _ _ => Phrase.Spelled.replace

theorem Phrase.local_allSpelled : (Shape.ofGrammar Phrase.AllSpelled).Local Closing :=
  Shape.local_ofGrammar fun _ _ _ => Phrase.AllSpelled.replace

theorem Body.local_spelled (keyword : Kind) :
    (Shape.ofGrammar (Body.Spelled keyword)).Local fun _ => True := by
  rintro tokens rest ⟨body, hbody⟩
  obtain ⟨used, hused, hother⟩ := hbody.replace
  exact ⟨used, hused, fun other _ => ⟨body, hother other⟩⟩

/-! ### Declarations -/

namespace Stmt

theorem viable_separated {α β : Type} {item : Reading β} [Forward item]
    {grammar : List Token → α → List Token → Prop} {bound : Nat} {cursor : Cursor}
    (hlocal : (Shape.ofGrammar grammar).Local Closing)
    (hfollows : ∀ tokens, tokens.length ≤ cursor.rest.length →
      item.Consumes (cursor.goTo tokens) (.ofGrammar grammar))
    (hviable : ∀ tokens, tokens.length ≤ cursor.rest.length →
      item.Viable (cursor.goTo tokens) (.ofGrammar grammar) (fun _ => True) Closing) :
    (separated item bound).Viable cursor (.ofGrammar (Listed grammar)) (fun _ => True) Closing := by
  have hlast {tokens rest : List Token} {found : α} (hclosing : Closing rest)
      (hitem : grammar tokens found rest) : Listed grammar tokens [found] rest :=
    .last hitem (ne_of_closing rfl hclosing)
  induction bound generalizing cursor with
  | zero =>
      refine (viable_bind_pure (hviable cursor.rest le_rfl)).of_imp ?_
      rintro tokens rest hclosing ⟨found, hitem⟩
      exact ⟨_, hlast hclosing hitem⟩
  | succ bound ih =>
      have hshorter {rest others tokens : List Token} {comma : Token}
          (hrest : rest = comma :: others) (hlength : rest.length ≤ cursor.rest.length)
          (htokens : tokens.length ≤ others.length) : tokens.length ≤ cursor.rest.length := by
        rw [hrest, List.length_cons] at hlength
        omega
      refine (viable_bind (hfollows cursor.rest le_rfl) hlocal (hviable cursor.rest le_rfl)
        (fun found rest hlength => viable_optional (by decide) fun comma others hothers hcomma =>
          viable_bind_pure (ih ?_ ?_)) (Shape.completes_optional .comma _)).of_imp ?_
      · exact fun tokens htokens => hfollows tokens (hshorter hothers hlength htokens)
      · exact fun tokens htokens => hviable tokens (hshorter hothers hlength htokens)
      · rintro tokens rest hclosing ⟨middle, ⟨found, hitem⟩,
          ⟨_, ⟨comma, rfl, hcomma⟩, others, hothers⟩ | ⟨rfl, -⟩⟩
        · exact ⟨found :: others, .more hitem hcomma hothers⟩
        · exact ⟨[found], hlast hclosing hitem⟩

theorem viable_declarator (type : ValueType) {bound : Nat} {cursor : Cursor}
    (hbound : cursor.rest.length ≤ bound) :
    (declarator type bound).Viable cursor (.ofGrammar Declarator.Spelled) (fun _ => True)
      Closing := by
  refine (viable_expect_bind (by decide) (fun _ _ _ => trivial)
    (fun name rest hlength => viable_optional (by decide) fun equals others hothers _ =>
      viable_bind_pure (Expr.viable_readWithin bound ?_).anyStart)
    (Shape.completes_optional .equals _).anyStart).of_imp ?_
  · have hrest : rest = equals :: others := hothers
    rw [hrest, List.length_cons] at hlength
    simp only [Cursor.rest_goTo]
    omega
  · rintro tokens rest hclosing ⟨middle, ⟨name, rfl, hname⟩,
      ⟨_, ⟨equals, rfl, hequals⟩, value, hvalue⟩ | ⟨rfl, -⟩⟩
    · exact ⟨⟨name, some value⟩, .initialized hname hequals hvalue⟩
    · exact ⟨⟨name, none⟩, .plain hname (ne_of_closing rfl hclosing)⟩

theorem viable_declarations (type : ValueType) (line : Nat) {bound : Nat} {cursor : Cursor}
    (hbound : cursor.rest.length ≤ bound) (hexecutable : cursor.executable = false) :
    (declarations type line bound).Viable cursor (.ofGrammar (Listed Declarator.Spelled))
      (fun _ => True) Closing := by
  have hnames : (separated (declarator type bound) bound).Viable cursor
      (.ofGrammar (Listed Declarator.Spelled)) (fun _ => True) Closing := by
    refine viable_separated (Shape.local_ofGrammar Declarator.local_spelled)
      (fun tokens htokens => ?_) fun tokens htokens => ?_
    · refine (follows_declarator type (htokens.trans hbound)).consumes ?_
      rintro tokens found rest ⟨written, hwritten, -⟩
      exact ⟨written, hwritten⟩
    · exact viable_declarator type (htokens.trans hbound)
  refine viable_get_bind ?_
  rw [hexecutable]
  exact hnames

/-- Declarations after the first statement are reported. -/
theorem viable_lateDeclarations {type : ValueType} {line bound : Nat} {cursor : Cursor}
    {shape : Shape} {start follow : List Token → Prop} (hexecutable : cursor.executable = true) :
    (declarations type line bound).Viable cursor shape start follow := by
  refine viable_get_bind ?_
  rw [hexecutable]
  exact viable_report_bind

/-! ### Bodies -/

/-- The reader of one item, at the cursors of a body: it reads phrases, and where it fails what it
has consumed is the beginning of a phrase. -/
structure ReadsPhrases (inner : Reading (List Stmt)) (cursor : Cursor) : Prop where
  follows : FollowsPhrases inner cursor
  viable : ∀ tokens, tokens.length ≤ cursor.rest.length →
    inner.Viable (cursor.goTo tokens) (.ofGrammar Phrase.Spelled) (fun _ => True) Closing

theorem ReadsPhrases.goTo {inner : Reading (List Stmt)} {cursor : Cursor}
    (hinner : ReadsPhrases inner cursor) {tokens : List Token}
    (hlength : tokens.length ≤ cursor.rest.length) : ReadsPhrases inner (cursor.goTo tokens) :=
  ⟨hinner.follows.goTo hlength, fun others hothers => hinner.viable others (hothers.trans hlength)⟩

section Bodies

variable {inner : Reading (List Stmt)} [Forward inner] {cursor : Cursor} {bound : Nat}
  {follow : List Token → Prop}

theorem completes_phrases : (Shape.ofGrammar Phrase.AllSpelled).Completes Closing Closing [] :=
  ⟨[], fun _ hclosing => ⟨⟨[], .nil⟩, fun _ => hclosing⟩⟩

theorem viable_items (hinner : ReadsPhrases inner cursor) (closing : Kind) (rounds : Nat) :
    (items inner closing rounds).Viable cursor (.ofGrammar Phrase.AllSpelled) Closing Closing := by
  induction rounds generalizing cursor with
  | zero => exact viable_pure
  | succ rounds ih =>
      refine viable_get_bind (viable_ite (fun _ => viable_pure) fun _ => ?_)
      have hconsumes : inner.Consumes cursor (.ofGrammar Phrase.Spelled) :=
        (hinner.follows cursor.rest le_rfl).consumes fun _ _ _ ⟨phrase, hphrase, _⟩ =>
          ⟨phrase, hphrase⟩
      refine Viable.orNothing completes_phrases ?_
      refine (viable_bind hconsumes Phrase.local_spelled (hinner.viable cursor.rest le_rfl)
        (fun found rest hlength => viable_bind_pure (ih (hinner.goTo hlength)))
        completes_phrases).of_imp ?_
      rintro tokens rest - ⟨middle, ⟨phrase, hphrase⟩, phrases, hphrases⟩
      exact ⟨phrase :: phrases, .cons hphrase hphrases⟩

/-- The keywords that close a body. -/
def ending (closing : Kind) : Shape := .next (.one .kwEnd) (.next (.one closing) .nothing)

theorem completes_ending (closing : Kind) : (ending closing).Completes Closing follow [] :=
  Shape.completes_next (Shape.completes_one (closing_of_kind rfl))
    (Shape.completes_next (Shape.completes_token closing)
      (Shape.completes_nothing fun _ _ => trivial))

/-- A body and the keywords that close it, from any cursor where its items can be completed. -/
theorem viable_body {closing : Kind} (hclosing : closing ≠ .endOfInput) {message : String}
    {shape : Shape} (hlocal : shape.Local Closing)
    (hitems : (items inner closing bound).Viable cursor shape Closing Closing)
    (hreads : ∀ found later, (items inner closing bound).Reads cursor found later →
      shape cursor.rest later.rest) :
    (body inner closing message bound).Viable cursor (shape.next (ending closing)) (fun _ => True)
      follow := by
  refine viable_then hlocal hitems (fun found later hfound => ⟨hreads found later hfound, ?_⟩)
    (completes_ending closing)
  refine viable_expect_bind (by decide) (closing_of_kind rfl) (fun _ _ _ => ?_)
    (Shape.completes_next (Shape.completes_token closing)
      (Shape.completes_nothing fun _ _ => trivial))
  exact viable_expect_bind hclosing (fun _ _ _ => trivial) (fun _ _ _ => viable_pure)
    (Shape.completes_nothing fun _ _ => trivial)

/-- The keywords that open a body, its phrases and the keywords that close it. -/
def between (keyword : Kind) : Shape :=
  .next (.one .kwBegin) (.next (.one keyword)
    (.next (.ofGrammar Phrase.AllSpelled) (ending keyword)))

theorem spelled_of_between {keyword : Kind} {tokens rest : List Token}
    (hbetween : between keyword tokens rest) :
    Shape.ofGrammar (Body.Spelled keyword) tokens rest := by
  obtain ⟨_, ⟨opening, rfl, hopening⟩, _, ⟨opened, rfl, hopened⟩, _, ⟨phrases, hphrases⟩, _,
    ⟨ending, rfl, hending⟩, _, ⟨ended, rfl, hended⟩, rfl⟩ := hbetween
  exact ⟨_, .mk hopening hopened hphrases hending hended⟩

theorem completes_inside (keyword : Kind) :
    (Shape.next (.ofGrammar Phrase.AllSpelled) (ending keyword)).Completes (fun _ => True) follow
      [] :=
  (Shape.completes_next completes_phrases (completes_ending keyword)).anyStart

theorem completes_body (keyword : Kind) :
    (Shape.ofGrammar (Body.Spelled keyword)).Completes (fun _ => True) follow [] := by
  have hbetween : (between keyword).Completes (fun _ => True) follow [] :=
    Shape.completes_next (Shape.completes_token .kwBegin)
      (Shape.completes_next (Shape.completes_token keyword) (completes_inside keyword))
  exact hbetween.of_imp fun _ _ _ => spelled_of_between

theorem viable_keywordBody (hinner : ReadsPhrases inner cursor) {keyword : Kind}
    (hkeyword : keyword ≠ .endOfInput) {openMessage closeMessage : String} :
    (keywordBody inner keyword openMessage closeMessage bound).Viable cursor
      (.ofGrammar (Body.Spelled keyword)) (fun _ => True) follow := by
  have hbetween : (keywordBody inner keyword openMessage closeMessage bound).Viable cursor
      (between keyword) (fun _ => True) follow := by
    refine viable_expect_bind (by decide) (fun _ _ _ => trivial) (fun opening rest hrest => ?_)
      (Shape.completes_next (Shape.completes_token keyword) (completes_inside keyword))
    refine viable_expect_bind hkeyword (fun _ _ _ => trivial) (fun opened tokens htokens => ?_)
      (completes_inside keyword)
    have hlength : tokens.length ≤ cursor.rest.length := (htokens.trans hrest).le
    refine viable_bind_pure (viable_body hkeyword Phrase.local_allSpelled
      (viable_items (hinner.goTo hlength) keyword bound) fun found later hreads => ?_)
    obtain ⟨phrases, hphrases, -⟩ := items_sound (hinner.goTo hlength).follows hreads
    exact ⟨phrases, hphrases⟩
  exact hbetween.of_imp fun _ _ _ => spelled_of_between

theorem viable_keywordBlock (hinner : ReadsPhrases inner cursor) {keyword : Kind}
    (hkeyword : keyword ≠ .endOfInput) {openMessage closeMessage : String} :
    (keywordBlock inner keyword openMessage closeMessage bound).Viable cursor
      (.ofGrammar (Body.Spelled keyword)) (fun _ => True) follow :=
  viable_bind_pure (viable_keywordBody hinner hkeyword)

end Bodies

/-! ### Control statements -/

section Control

variable {inner : Reading (List Stmt)} [Forward inner] {cursor : Cursor} {bound : Nat}
  {follow : List Token → Prop} {other : Shape}

/-- A condition in parentheses and a body, and what comes after them. -/
def guarded (keyword : Kind) (other : Shape) : Shape :=
  .next (.one .leftParen) (.next (.ofGrammar Expr.Spelled) (.next (.one .rightParen)
    (.next (.ofGrammar (Body.Spelled keyword)) other)))

section Guarded

variable (hfresh : other.Completes (fun _ => True) follow [])

include hfresh

theorem completes_closed (keyword : Kind) :
    (Shape.next (.one .rightParen) (.next (.ofGrammar (Body.Spelled keyword)) other)).Completes
      Closing follow [] :=
  Shape.completes_next (Shape.completes_one (closing_of_kind rfl))
    (Shape.completes_next (completes_body keyword) hfresh)

theorem completes_guarded (keyword : Kind) :
    (guarded keyword other).Completes (fun _ => True) follow [] :=
  Shape.completes_next (Shape.completes_token .leftParen)
    (Shape.completes_next Expr.completes_spelled (completes_closed hfresh keyword)).anyStart

theorem viable_guarded {keyword : Kind} (hkeyword : keyword ≠ .endOfInput)
    {opens closes begins ends : String} {next : Expr → Stmt → Reading Stmt}
    [∀ condition block, Forward (next condition block)] (hinner : ReadsPhrases inner cursor)
    (hbound : cursor.rest.length ≤ bound)
    (hnext : ∀ condition block rest, rest.length < cursor.rest.length →
      (next condition block).Viable (cursor.goTo rest) other (fun _ => True) follow) :
    (do
      let _ ← expect .leftParen opens
      let condition ← Expr.readWithin bound
      let _ ← expect .rightParen closes
      let block ← keywordBlock inner keyword begins ends bound
      next condition block).Viable cursor (guarded keyword other) (fun _ => True) follow := by
  refine viable_expect_bind (by decide) (fun _ _ _ => trivial) (fun opening inside hinside => ?_)
    (Shape.completes_next Expr.completes_spelled (completes_closed hfresh keyword)).anyStart
  have hlength : inside.length ≤ bound := hinside.le.trans hbound
  have hcondition : (Expr.readWithin bound).Consumes (cursor.goTo inside)
      (.ofGrammar Expr.Spelled) :=
    (Expr.follows_readWithin hlength).consumes fun _ expr _ hexpr => ⟨expr, hexpr⟩
  refine viable_bind hcondition (Shape.local_ofGrammar Expr.local_spelled)
    (Expr.viable_readWithin bound hlength) (fun condition middle hmiddle => ?_)
    (completes_closed hfresh keyword)
  refine viable_expect_bind (by decide) (closing_of_kind rfl) (fun closing after hafter => ?_)
    (Shape.completes_next (completes_body keyword) hfresh)
  have hshorter : after.length < cursor.rest.length := (hafter.trans_le hmiddle).trans hinside
  have hbody : (keywordBlock inner keyword begins ends bound).Consumes (cursor.goTo after)
      (.ofGrammar (Body.Spelled keyword)) :=
    (follows_keywordBlock (hinner.goTo hshorter.le).follows hkeyword
      (hshorter.le.trans hbound)).consumes fun _ _ _ ⟨body, hbody, _⟩ => ⟨body, hbody⟩
  refine viable_bind hbody (Body.local_spelled keyword)
    (viable_keywordBlock (hinner.goTo hshorter.le) hkeyword) (fun block last hlast => ?_) hfresh
  exact hnext condition block last (hlast.trans_lt hshorter)

end Guarded

/-- What follows the keyword `ELSE`. -/
def alternative : Shape :=
  fun tokens rest => Shape.ofGrammar (Body.Spelled .kwIf) tokens rest ∨
    Shape.ofGrammar Branch.Spelled tokens rest

theorem spelled_of_optional {tokens rest : List Token} (hclosing : Closing rest)
    (hoptional : alternative.optional .kwElse tokens rest) :
    Shape.ofGrammar Otherwise.Spelled tokens rest := by
  rcases hoptional with ⟨_, ⟨keyword, rfl, hkeyword⟩, ⟨body, hbody⟩ | ⟨branch, hbranch⟩⟩ | ⟨rfl, -⟩
  · exact ⟨.body body, .body hkeyword hbody⟩
  · exact ⟨.chained branch, .chained hkeyword hbranch⟩
  · exact ⟨.nothing, .nothing (ne_of_closing rfl hclosing)⟩

theorem completes_otherwise :
    (Shape.ofGrammar Otherwise.Spelled).Completes (fun _ => True) Closing [] :=
  ((Shape.completes_optional .kwElse alternative).of_imp fun _ _ =>
    spelled_of_optional).anyStart

theorem viable_otherwiseFrom (hinner : ReadsPhrases inner cursor) {condition : Expr}
    {thenBranch : Stmt} {line : Nat}
    (hchained : ∀ keyword tokens, keyword.kind = .kwIf → tokens.length < cursor.rest.length →
      (conditionalFrom inner bound keyword.line).Viable (cursor.goTo tokens)
        ((Shape.ofGrammar Branch.Spelled).behind keyword) (fun _ => True) Closing) :
    (otherwiseFrom inner bound condition thenBranch line).Viable cursor
      (.ofGrammar Otherwise.Spelled) (fun _ => True) Closing := by
  refine Viable.of_imp (viable_optional (by decide) fun keyword middle hmiddle _ => ?_) fun _ _ =>
    spelled_of_optional
  have hlength : middle.length < cursor.rest.length := by
    rw [hmiddle, List.length_cons]
    omega
  refine viable_head_bind (viable_accept (by decide) (fun second tokens htokens hsecond => ?_) ?_)
  · have hhead : (cursor.goTo middle).head = second := Cursor.head_cons htokens
    have hshorter : tokens.length < cursor.rest.length := by
      rw [Cursor.rest_goTo] at htokens
      rw [htokens, List.length_cons] at hlength
      omega
    rw [hhead]
    exact (viable_bind_pure (hchained second tokens hsecond hshorter)).of_imp fun _ _ _ => .inr
  · exact (viable_bind_pure (viable_keywordBlock (hinner.goTo hlength.le) (by decide))).of_imp
      fun _ _ _ => .inl

/-- The keyword `IF` has been consumed before. -/
theorem viable_conditionalFrom (hinner : ReadsPhrases inner cursor)
    (hbound : cursor.rest.length ≤ bound) {keyword : Token} (hkeyword : keyword.kind = .kwIf) :
    (conditionalFrom inner bound keyword.line).Viable cursor
      ((Shape.ofGrammar Branch.Spelled).behind keyword) (fun _ => True) Closing := by
  have hspelled {keyword : Token} (hkeyword : keyword.kind = .kwIf) (tokens rest : List Token)
      (_ : Closing rest) (hguarded : guarded .kwIf (.ofGrammar Otherwise.Spelled) tokens rest) :
      (Shape.ofGrammar Branch.Spelled).behind keyword tokens rest := by
    obtain ⟨_, ⟨opening, rfl, hopening⟩, _, ⟨condition, hcondition⟩, _, ⟨closing, rfl, hclosing⟩, _,
      ⟨body, hbody⟩, otherwise, hotherwise⟩ := hguarded
    exact ⟨_, .mk hkeyword hopening hcondition hclosing hbody hotherwise⟩
  induction bound generalizing cursor keyword with
  | zero =>
      exact viable_fail ((completes_guarded completes_otherwise .kwIf).of_imp (hspelled hkeyword))
  | succ bound ih =>
      rw [conditionalFrom_succ]
      refine (viable_guarded completes_otherwise (by decide) hinner hbound
        fun condition block rest hrest => viable_otherwiseFrom (hinner.goTo hrest.le)
          fun keyword tokens hkeyword htokens => ?_).of_imp (hspelled hkeyword)
      have hlength : tokens.length < cursor.rest.length := htokens.trans hrest
      exact ih (hinner.goTo hlength.le) (Nat.le_of_lt_succ (hlength.trans_le hbound)) hkeyword

/-- The keyword `WHILE` has been consumed before. -/
theorem viable_loopFrom (hinner : ReadsPhrases inner cursor) (hbound : cursor.rest.length ≤ bound)
    {keyword : Token} (hkeyword : keyword.kind = .kwWhile) :
    (loopFrom inner bound keyword.line).Viable cursor
      ((Shape.ofGrammar Phrase.Spelled).behind keyword) (fun _ => True) follow := by
  refine (viable_guarded (Shape.completes_nothing fun _ _ => trivial) (by decide) hinner hbound
    fun _ _ _ _ => viable_pure).of_imp ?_
  rintro tokens rest - ⟨_, ⟨opening, rfl, hopening⟩, _, ⟨condition, hcondition⟩, _,
    ⟨closing, rfl, hclosing⟩, _, ⟨body, hbody⟩, rfl⟩
  exact ⟨_, .loop hkeyword hopening hcondition hclosing hbody⟩

/-! ### The head of a `FOR` -/

theorem viable_forClause (hbound : cursor.rest.length ≤ bound) :
    (forClause bound).Viable cursor (.ofGrammar Initializer.Spelled) (fun _ => True) Closing := by
  refine viable_head_bind ?_
  cases htype : cursor.head.kind.valueType? with
  | some type =>
      have hnotEnd : cursor.head.kind ≠ .endOfInput := Kind.ne_of_valueType? htype rfl
      obtain ⟨rest, hrest, -⟩ := Cursor.rest_eq_cons hnotEnd
      have hlength : rest.length ≤ bound := by
        rw [hrest, List.length_cons] at hbound
        omega
      refine viable_advance_bind hrest hnotEnd ((viable_declarator type hlength).of_imp ?_)
      rintro tokens rest - ⟨declarator, hdeclarator⟩
      exact ⟨_, .declared htype hdeclarator⟩
  | none =>
      refine (viable_bind_pure (Expr.viable_readWithin bound hbound).anyStart).of_imp ?_
      rintro tokens rest - ⟨expr, hexpr⟩
      exact ⟨_, .expression hexpr⟩

theorem completes_clause {α : Type} (item : List Token → α → List Token → Prop) (closing : Kind) :
    (Shape.ofGrammar (Clause item closing)).Completes (fun _ => True) follow [] := by
  refine (Shape.completes_token closing).of_imp ?_
  rintro _ rest - ⟨close, rfl, hclose⟩
  exact ⟨none, .empty hclose⟩

theorem viable_forInitializer (hbound : cursor.rest.length ≤ bound) :
    (forInitializer bound).Viable cursor (.ofGrammar (Clause Initializer.Spelled .semicolon))
      (fun _ => True) follow := by
  have hconsumes : (forClause bound).Consumes cursor (.ofGrammar Initializer.Spelled) :=
    (follows_forClause hbound).consumes fun _ _ _ ⟨initializer, hinitializer, _⟩ =>
      ⟨initializer, hinitializer⟩
  refine viable_accept (by decide) (fun _ _ _ _ => viable_pure) ?_
  refine (viable_bind hconsumes (Shape.local_ofGrammar Initializer.local_spelled)
    (viable_forClause hbound)
    (fun _ _ _ => viable_expect_bind (by decide) (closing_of_kind rfl) (fun _ _ _ => viable_pure)
      (Shape.completes_nothing fun _ _ => trivial))
    (Shape.completes_next (Shape.completes_one (closing_of_kind rfl))
      (Shape.completes_nothing fun _ _ => trivial))).of_imp ?_
  rintro tokens rest - ⟨_, ⟨initializer, hinitializer⟩, _, ⟨close, rfl, hclose⟩, rfl⟩
  exact ⟨some initializer, .filled hinitializer hclose⟩

/-- A clause and the token that closes it, and then reading on with a shorter rest. -/
theorem viable_clause {α : Type} {closing : Kind} (hclosing : closing ≠ .endOfInput)
    (hcloses : closing.closes = true) {message : String} {next : Option Expr → Reading α}
    [∀ found, Forward (next found)] (hbound : cursor.rest.length ≤ bound)
    (hnext : ∀ found rest, rest.length < cursor.rest.length →
      (next found).Viable (cursor.goTo rest) other (fun _ => True) follow)
    (hfresh : other.Completes (fun _ => True) follow []) :
    (do
      let found ← optionalClause closing bound
      let _ ← expect closing message
      next found).Viable cursor (.next (.ofGrammar (Clause Expr.Spelled closing)) other)
        (fun _ => True) follow := by
  -- The expression of the clause, or nothing.
  let filling : Shape := fun tokens rest =>
    tokens = rest ∨ Shape.ofGrammar Expr.Spelled tokens rest
  have hlocal : filling.Local Closing := by
    rintro tokens rest (rfl | hfilled)
    · exact ⟨[], rfl, fun _ _ => .inl rfl⟩
    · obtain ⟨used, hused, hother⟩ := Shape.local_ofGrammar Expr.local_spelled hfilled
      exact ⟨used, hused, fun other hfits => .inr (hother other hfits)⟩
  have hconsumes : (optionalClause closing bound).Consumes cursor filling := by
    refine (follows_optionalClause hbound).consumes ?_
    rintro tokens found rest (⟨-, -, rfl⟩ | ⟨-, expr, hexpr, -⟩)
    · exact .inl rfl
    · exact .inr ⟨expr, hexpr⟩
  have hfilling : (optionalClause closing bound).Viable cursor filling (fun _ => True) Closing := by
    refine viable_get_bind (viable_ite (fun _ => viable_pure) fun _ => ?_)
    exact (viable_bind_pure (Expr.viable_readWithin bound hbound).anyStart).of_imp
      fun _ _ _ => .inr
  refine (viable_bind hconsumes hlocal hfilling
    (fun found middle hmiddle => viable_expect_bind hclosing (closing_of_kind hcloses)
      (fun _ rest hrest => hnext found rest (hrest.trans_le hmiddle)) hfresh)
    (Shape.completes_next (Shape.completes_one (closing_of_kind hcloses)) hfresh)).of_imp ?_
  rintro tokens rest - ⟨_, rfl | ⟨expr, hexpr⟩, after, ⟨close, rfl, hclose⟩, hafter⟩
  · exact ⟨after, ⟨none, .empty hclose⟩, hafter⟩
  · exact ⟨after, ⟨some expr, .filled hexpr hclose⟩, hafter⟩

/-- The keyword `FOR` has been consumed before. -/
theorem viable_forLoopFrom (hinner : ReadsPhrases inner cursor)
    (hbound : cursor.rest.length ≤ bound) {keyword : Token} (hkeyword : keyword.kind = .kwFor) :
    (forLoopFrom inner bound keyword.line).Viable cursor
      ((Shape.ofGrammar Phrase.Spelled).behind keyword) (fun _ => True) follow := by
  have hthird : (Shape.next (.ofGrammar (Clause Expr.Spelled .rightParen))
      (.ofGrammar (Body.Spelled .kwFor))).Completes (fun _ => True) follow [] :=
    Shape.completes_next (completes_clause _ _) (completes_body _)
  have hsecond := Shape.completes_next
    (completes_clause Expr.Spelled .semicolon : Shape.Completes _ _ (fun _ => True) _) hthird
  have hfirst := Shape.completes_next
    (completes_clause Initializer.Spelled .semicolon : Shape.Completes _ _ (fun _ => True) _)
    hsecond
  -- Every part is read with fewer tokens left than the one before, within the bound.
  refine Viable.of_imp (viable_expect_bind (by decide) (fun _ _ _ => trivial)
    (fun opening inside hinside => ?_) hfirst) ?_
  · have hlength : inside.length ≤ bound := hinside.le.trans hbound
    have hinitializer : (forInitializer bound).Consumes (cursor.goTo inside)
        (.ofGrammar (Clause Initializer.Spelled .semicolon)) :=
      (follows_forInitializer hlength).consumes fun _ _ _ ⟨initializer, hclause, _⟩ =>
        ⟨initializer, hclause⟩
    refine viable_bind hinitializer
      (Shape.local_ofGrammar (local_clause Initializer.local_spelled .semicolon))
      (viable_forInitializer hlength) (fun initializer second hlater => ?_) hsecond
    refine viable_clause (by decide) rfl (hlater.trans hlength)
      (fun condition third hthird => ?_) hthird
    refine viable_clause (by decide) rfl ((hthird.le.trans hlater).trans hlength)
      (fun increment middle hmiddle => ?_) (completes_body _)
    have hshorter : middle.length ≤ cursor.rest.length :=
      ((hmiddle.trans hthird).le.trans hlater).trans hinside.le
    exact viable_bind_pure (viable_keywordBody (hinner.goTo hshorter) (by decide))
  · rintro tokens rest - ⟨_, ⟨opening, rfl, hopening⟩, _, ⟨initializer, hinitializer⟩, _,
      ⟨condition, hcondition⟩, _, ⟨increment, hincrement⟩, body, hbody⟩
    exact ⟨_, .forLoop hkeyword hopening hinitializer hcondition hincrement hbody⟩

end Control

/-! ### Statements and items -/

section Items

variable {inner : Reading (List Stmt)} [Forward inner] {cursor : Cursor} {bound : Nat}

/-- A statement that begins with its keyword. -/
theorem viable_begun {reader : Reading Stmt} [Forward reader] {keyword : Token}
    {tokens : List Token} {shape : Shape} {start follow : List Token → Prop}
    (hrest : cursor.rest = keyword :: tokens) (hkeyword : keyword.kind ≠ .endOfInput)
    (hreader : reader.Viable ((started cursor).goTo tokens) (shape.behind keyword) (fun _ => True)
      follow) :
    (advance >>= fun _ => startExecutable >>= fun _ => reader).Viable cursor shape start follow :=
  viable_advance_bind hrest hkeyword hreader

/-- A statement that begins with its keyword and a colon. -/
theorem viable_begun_colon {reader : Reading Stmt} [Forward reader] {message : String}
    {keyword : Token} {tokens : List Token} {shape other : Shape}
    {start follow : List Token → Prop} (hrest : cursor.rest = keyword :: tokens)
    (hkeyword : keyword.kind ≠ .endOfInput)
    (hreader : ∀ others, others.length < tokens.length →
      reader.Viable ((started cursor).goTo others) other (fun _ => True) follow)
    (hfresh : other.Completes (fun _ => True) follow [])
    (himp : ∀ tokens rest, follow rest → (Shape.one .colon).next other tokens rest →
      shape.behind keyword tokens rest) :
    (advance >>= fun _ => expect .colon message >>= fun _ =>
      startExecutable >>= fun _ => reader).Viable cursor shape start follow := by
  refine viable_advance_bind hrest hkeyword (Viable.of_imp ?_ himp)
  exact viable_expect_bind (by decide) (fun _ _ _ => trivial) (fun _ => hreader) hfresh

theorem completes_names :
    (Shape.ofGrammar (Listed Token.Named)).Completes (fun _ => True) Closing [] := by
  refine (Shape.completes_token .identifier).of_imp ?_
  rintro _ rest hclosing ⟨name, rfl, hname⟩
  exact ⟨[name], .last ⟨rfl, hname⟩ (ne_of_closing rfl hclosing)⟩

theorem viable_statement (hbound : cursor.rest.length ≤ bound)
    (hinner : ∀ tokens, tokens.length < cursor.rest.length →
      ReadsPhrases inner ((started cursor).goTo tokens)) :
    (statement inner bound).Viable cursor (.ofGrammar Phrase.Spelled) (fun _ => True) Closing := by
  -- A keyword has been seen, and what is left after it is shorter.
  have hbegun {kind : Kind} (hkind : cursor.head.kind = kind) (hnotEnd : kind ≠ .endOfInput) :
      ∃ tokens, cursor.rest = cursor.head :: tokens ∧ tokens.length < cursor.rest.length ∧
        tokens.length ≤ bound ∧ cursor.head.kind ≠ .endOfInput := by
    have hhead : cursor.head.kind ≠ .endOfInput := by
      rw [hkind]
      exact hnotEnd
    obtain ⟨tokens, hrest, -⟩ := Cursor.rest_eq_cons hhead
    have hlength : tokens.length < cursor.rest.length := by
      rw [hrest, List.length_cons]
      omega
    exact ⟨tokens, hrest, hlength, hlength.le.trans hbound, hhead⟩
  refine viable_head_bind ?_
  split
  case h_1 hkeyword =>
    obtain ⟨tokens, hrest, hshorter, hlength, hnotEnd⟩ := hbegun hkeyword (by decide)
    refine viable_begun hrest hnotEnd
      ((viable_conditionalFrom (hinner tokens hshorter) hlength hkeyword).of_imp ?_)
    rintro tokens rest - ⟨branch, hbranch⟩
    exact ⟨_, .conditional hbranch⟩
  case h_2 hkeyword =>
    obtain ⟨tokens, hrest, hshorter, hlength, hnotEnd⟩ := hbegun hkeyword (by decide)
    exact viable_begun hrest hnotEnd (viable_loopFrom (hinner tokens hshorter) hlength hkeyword)
  case h_3 hkeyword =>
    obtain ⟨tokens, hrest, hshorter, hlength, hnotEnd⟩ := hbegun hkeyword (by decide)
    exact viable_begun hrest hnotEnd (viable_forLoopFrom (hinner tokens hshorter) hlength hkeyword)
  case h_4 hkeyword =>
    obtain ⟨tokens, hrest, -, hlength, hnotEnd⟩ := hbegun hkeyword (by decide)
    refine viable_begun_colon hrest hnotEnd
      (fun others hothers => viable_bind_pure
        (Expr.viable_readWithin bound (hothers.le.trans hlength)).anyStart)
      Expr.completes_spelled.anyStart ?_
    rintro tokens rest - ⟨_, ⟨colon, rfl, hcolon⟩, value, hvalue⟩
    exact ⟨_, .display hkeyword hcolon hvalue⟩
  case h_5 hkeyword =>
    obtain ⟨tokens, hrest, -, hlength, hnotEnd⟩ := hbegun hkeyword (by decide)
    refine viable_begun_colon hrest hnotEnd
      (fun others hothers => viable_bind_pure (viable_separated
        (Shape.local_ofGrammar Token.local_named) (fun _ _ => ?_) fun _ _ => ?_))
      completes_names ?_
    · exact (follows_expect (by decide)).consumes fun _ name _ hname => ⟨name, hname⟩
    · refine viable_expect.of_imp ?_
      rintro tokens rest - ⟨name, hname⟩
      exact ⟨name, hname⟩
    · rintro tokens rest - ⟨_, ⟨colon, rfl, hcolon⟩, names, hnames⟩
      obtain ⟨first, others, rfl⟩ := List.exists_cons_of_ne_nil hnames.ne_nil
      exact ⟨_, .scan hkeyword hcolon hnames⟩
  case h_6 =>
    have hexpr : (Expr.readWithin bound).Viable (started cursor) (.ofGrammar Expr.Spelled) Begins
        Closing := Expr.viable_readWithin bound hbound
    refine (viable_bind_pure hexpr.anyStart).of_imp ?_
    rintro tokens rest - ⟨expr, hexpr⟩
    exact ⟨_, .expression hexpr⟩

/-- A program block inside another one is reported. -/
theorem viable_nestedCode {shape : Shape} {start follow : List Token → Prop}
    (hcode : cursor.codeSeen = true) (hpair : cursor.seesPair .kwBegin .kwCode = true) :
    (codeBlock inner bound).Viable cursor shape start follow := by
  obtain ⟨opening, keyword, tokens, hrest, hopening, hkeyword⟩ := Cursor.seesPair_eq_true.mp hpair
  refine viable_get_bind ?_
  simp only [hcode, if_true]
  refine viable_advance_bind hrest (by rw [hopening]; decide) ?_
  exact viable_advance_bind (Cursor.rest_goTo _ _) (by rw [hkeyword]; decide) viable_report_bind

/-- An item of a body is a declaration, before the first statement, or a phrase. -/
def itemShape (executable : Bool) : Shape := fun tokens rest =>
  (executable = false ∧ Shape.ofGrammar Declaration.Spelled tokens rest) ∨
    Shape.ofGrammar Phrase.Spelled tokens rest

theorem viable_item (hcode : cursor.codeSeen = true) (hbound : cursor.rest.length ≤ bound)
    (hinner : ∀ tokens, tokens.length < cursor.rest.length →
      ReadsPhrases inner ((started cursor).goTo tokens)) :
    (item inner bound).Viable cursor (itemShape cursor.executable) (fun _ => True) Closing := by
  refine viable_get_bind ?_
  split
  · rename_i type htype
    have hnotEnd : cursor.head.kind ≠ .endOfInput := Kind.ne_of_valueType? htype rfl
    obtain ⟨tokens, hrest, -⟩ := Cursor.rest_eq_cons hnotEnd
    have hlength : (cursor.goTo tokens).rest.length ≤ bound := by
      rw [hrest, List.length_cons] at hbound
      exact Nat.le_of_lt hbound
    refine viable_advance_bind hrest hnotEnd ?_
    cases hexecutable : cursor.executable with
    | true => exact viable_lateDeclarations hexecutable
    | false =>
        refine (viable_declarations type _ hlength hexecutable).of_imp ?_
        rintro tokens rest - ⟨names, hnames⟩
        obtain ⟨first, others, rfl⟩ := List.exists_cons_of_ne_nil hnames.ne_nil
        exact .inl ⟨rfl, _, .mk htype hnames⟩
  · refine viable_ite (fun hpair => viable_nestedCode hcode hpair) fun _ => ?_
    exact (viable_bind_pure (viable_statement hbound hinner)).of_imp fun _ _ _ => .inr

end Items

/-- Inside a body, once executable statements have begun, what is read without recovery are
phrases. -/
theorem readsPhrases_strictItem {bound : Nat} {cursor : Cursor} (hcode : cursor.codeSeen = true)
    (hexecutable : cursor.executable = true) (hbound : cursor.rest.length < bound) :
    ReadsPhrases (strictItem bound) cursor := by
  induction bound generalizing cursor with
  | zero => omega
  | succ bound ih =>
      refine ⟨fun tokens htokens => ⟨?_⟩, fun tokens htokens => ?_⟩
      · exact (shadows_strictItem (bound + 1)).reads_iff.trans
          (followsPhrases_readItem hcode hexecutable hbound tokens htokens).reads_iff
      · have hseen : (cursor.goTo tokens).codeSeen = true := hcode
        have hshorter : (cursor.goTo tokens).rest.length < bound + 1 := htokens.trans_lt hbound
        have hviable := viable_item hseen hshorter.le fun fewer hfewer => ih hcode rfl
          (Nat.lt_of_lt_of_le hfewer (Nat.le_of_lt_succ hshorter))
        refine hviable.of_imp fun tokens rest _ hitem => ?_
        rcases hitem with ⟨hdeclares, -⟩ | hphrase
        · exact absurd (hdeclares.symm.trans hexecutable) Bool.false_ne_true
        · exact hphrase

end Stmt

end BeginCode
