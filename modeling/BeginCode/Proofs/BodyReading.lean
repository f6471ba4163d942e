import BeginCode.Proofs.ExprReading
import BeginCode.Proofs.Phrase

/-!
# Reading declarations and bodies follows the grammar

Readers of statements only move forward. Given a reader of one item that follows the grammar of
phrases, a body is read silently exactly where the grammar has one.
-/

namespace BeginCode.Stmt

open BeginCode.Token (Kind)
open BeginCode.Reading

/-! ### Readers of statements only move forward -/

section Forward

variable (inner : Reading (List Stmt)) [Forward inner]

instance forward_startExecutable : Forward startExecutable :=
  ⟨fun _ => ⟨⟨[], rfl, by simp⟩, List.prefix_rfl⟩⟩

instance forward_items (closing : Kind) (bound : Nat) : Forward (items inner closing bound) := by
  induction bound with
  | zero =>
      unfold items
      infer_instance
  | succ bound ih =>
      unfold items
      infer_instance

instance forward_body (closing : Kind) (message : String) (bound : Nat) :
    Forward (body inner closing message bound) := by
  unfold body
  infer_instance

instance forward_keywordBody (keyword : Kind) (openMessage closeMessage : String) (bound : Nat) :
    Forward (keywordBody inner keyword openMessage closeMessage bound) := by
  unfold keywordBody
  infer_instance

instance forward_keywordBlock (keyword : Kind) (openMessage closeMessage : String) (bound : Nat) :
    Forward (keywordBlock inner keyword openMessage closeMessage bound) := by
  unfold keywordBlock
  infer_instance

instance forward_declarator (type : ValueType) (bound : Nat) : Forward (declarator type bound) := by
  unfold declarator
  infer_instance

instance forward_declarations (type : ValueType) (line bound : Nat) :
    Forward (declarations type line bound) := by
  unfold declarations
  infer_instance

/-- What follows the body of an `IF`. -/
def otherwiseFrom (bound : Nat) (condition : Expr) (thenBranch : Stmt) (line : Nat) :
    Reading Stmt := do
  if ← accept .kwElse then
    let next ← head
    if ← accept .kwIf then
      let elseBranch ← conditionalFrom inner bound next.line
      return .conditional condition thenBranch (some elseBranch) line
    else
      let elseBranch ← keywordBlock inner .kwIf "Expect 'BEGIN IF' after 'ELSE'."
        "Expect 'END IF' after the statement body." (bound + 1)
      return .conditional condition thenBranch (some elseBranch) line
  else
    return .conditional condition thenBranch none line

omit [Forward inner] in
theorem conditionalFrom_succ (bound line : Nat) :
    conditionalFrom inner (bound + 1) line = (do
      let _ ← expect .leftParen "Expect '(' after 'IF'."
      let condition ← Expr.readWithin (bound + 1)
      let _ ← expect .rightParen "Expect ')' after if condition."
      let thenBranch ← keywordBlock inner .kwIf "Expect 'BEGIN IF' after ')'."
        "Expect 'END IF' after the statement body." (bound + 1)
      otherwiseFrom inner bound condition thenBranch line) := rfl

instance forward_otherwiseFrom (bound : Nat) [∀ line, Forward (conditionalFrom inner bound line)]
    (condition : Expr) (thenBranch : Stmt) (line : Nat) :
    Forward (otherwiseFrom inner bound condition thenBranch line) := by
  unfold otherwiseFrom
  infer_instance

instance forward_conditionalFrom (bound line : Nat) :
    Forward (conditionalFrom inner bound line) := by
  induction bound generalizing line with
  | zero =>
      unfold conditionalFrom
      infer_instance
  | succ bound ih =>
      rw [conditionalFrom_succ]
      infer_instance

instance forward_loopFrom (bound line : Nat) : Forward (loopFrom inner bound line) := by
  unfold loopFrom
  infer_instance

instance forward_forClause (bound : Nat) : Forward (forClause bound) := by
  unfold forClause
  refine @forward_bind _ _ _ _ _ fun token => ?_
  split <;> infer_instance

instance forward_forInitializer (bound : Nat) : Forward (forInitializer bound) := by
  unfold forInitializer
  infer_instance

instance forward_optionalClause (closing : Kind) (bound : Nat) :
    Forward (optionalClause closing bound) := by
  unfold optionalClause
  infer_instance

instance forward_forLoopFrom (bound line : Nat) : Forward (forLoopFrom inner bound line) := by
  unfold forLoopFrom
  infer_instance

instance forward_statement (bound : Nat) : Forward (statement inner bound) := by
  unfold statement
  refine @forward_bind _ _ _ _ _ fun token => ?_
  split <;> infer_instance

instance forward_openCode : Forward (modify fun cursor : Cursor =>
    { cursor with codeSeen := true, executable := false } : Reading Unit) :=
  ⟨fun _ => ⟨⟨[], rfl, by simp⟩, List.prefix_rfl⟩⟩

instance forward_codeBlock (bound : Nat) : Forward (codeBlock inner bound) := by
  unfold codeBlock
  infer_instance

instance forward_item (bound : Nat) : Forward (item inner bound) := by
  unfold item
  refine @forward_bind _ _ _ _ _ fun cursor => ?_
  split <;> infer_instance

omit [Forward inner] in
theorem final_recovering (construct : Reading (List Stmt)) (cursor : Cursor) :
    (recovering construct).final cursor =
      match construct.run cursor with
      | .ok _ after => after
      | .error error after => (after.addError error).resume cursor.rest.length := by
  unfold final
  rw [run_recovering]
  cases construct.run cursor <;> rfl

instance forward_recovering (construct : Reading (List Stmt)) [forward : Forward construct] :
    Forward (recovering construct) := by
  refine ⟨fun cursor => ?_⟩
  have hleads := forward.leadsTo cursor
  rw [final_recovering]
  unfold final at hleads
  cases hrun : construct.run cursor with
  | ok found after =>
      rw [hrun] at hleads
      exact hleads
  | error error after =>
      rw [hrun] at hleads
      exact hleads.trans ((after.leadsTo_addError error).trans (Cursor.leadsTo_resume _ _))

end Forward

instance forward_readItem (bound : Nat) : Forward (readItem bound) := by
  induction bound with
  | zero =>
      unfold readItem
      infer_instance
  | succ bound ih =>
      unfold readItem
      infer_instance

/-! ### Declarations -/

theorem follows_separated {α : Type} {item : Reading α} [Forward item]
    {grammar : List Token → α → List Token → Prop}
    (hshorter : ∀ {tokens found rest}, grammar tokens found rest → rest.length < tokens.length)
    {bound : Nat} {cursor : Cursor} (hbound : cursor.rest.length ≤ bound)
    (hitem : ∀ tokens, tokens.length ≤ cursor.rest.length →
      item.Follows (cursor.goTo tokens) grammar) :
    (separated item bound).Follows cursor (Listed grammar) := by
  induction bound generalizing cursor with
  | zero =>
      have hitem := hitem cursor.rest le_rfl
      refine (follows_bind hitem fun _ _ _ => follows_pure).of_iff fun found rest => ?_
      have hnothing {first : α} {middle : List Token} : ¬grammar cursor.rest first middle := by
        intro hfirst
        have := hshorter hfirst
        omega
      constructor
      · rintro ⟨first, middle, hfirst, -⟩
        exact absurd hfirst hnothing
      · rintro (⟨hfirst, -⟩ | ⟨hfirst, -, -⟩)
        · exact absurd hfirst hnothing
        · exact absurd hfirst hnothing
  | succ bound ih =>
      refine (follows_bind (hitem cursor.rest le_rfl) fun first middle hfirst =>
        follows_accept (by decide)
          (fun comma others hothers _ => follows_bind (ih ?_ ?_) fun _ _ _ => follows_pure)
          (fun _ => follows_pure)).of_iff fun found rest => ?_
      · have hmiddle : middle.length < cursor.rest.length := hshorter hfirst
        have hothers : middle = comma :: others := hothers
        rw [hothers, List.length_cons] at hmiddle
        simp only [Cursor.rest_goTo]
        omega
      · intro tokens htokens
        have hmiddle : middle.length < cursor.rest.length := hshorter hfirst
        have hothers : middle = comma :: others := hothers
        rw [hothers, List.length_cons] at hmiddle
        simp only [Cursor.rest_goTo] at htokens
        exact hitem tokens (by omega)
      · constructor
        · rintro ⟨first, middle, hfirst, ⟨comma, others, rfl, hcomma, more, last, hmore, rfl, rfl⟩ |
            ⟨hnext, rfl, rfl⟩⟩
          · exact .more hfirst hcomma hmore
          · exact .last hfirst hnext
        · rintro (⟨hfirst, hnext⟩ | ⟨hfirst, hcomma, hmore⟩)
          · exact ⟨_, _, hfirst, .inr ⟨hnext, rfl, rfl⟩⟩
          · exact ⟨_, _, hfirst, .inl ⟨_, _, rfl, hcomma, _, _, hmore, rfl, rfl⟩⟩

theorem follows_declarator (type : ValueType) {bound : Nat} {cursor : Cursor}
    (hbound : cursor.rest.length ≤ bound) :
    (declarator type bound).Follows cursor fun tokens found rest =>
      ∃ written, Declarator.Spelled tokens written rest ∧ found = written.lower type := by
  refine (follows_bind (follows_expect (by decide)) fun name middle hname =>
    follows_accept (by decide)
      (fun equals others hothers _ => follows_bind (Expr.follows_readWithin ?_) fun _ _ _ =>
        follows_pure)
      (fun _ => follows_pure)).of_iff fun found rest => ?_
  · simp only [Cursor.rest_goTo] at hothers ⊢
    simp only [hname.1, hothers, List.length_cons] at hbound
    omega
  · constructor
    · rintro ⟨name, middle, ⟨hrest, hname⟩, ⟨equals, others, rfl, hequals, value, last, hvalue, rfl,
        rfl⟩ | ⟨hnext, rfl, rfl⟩⟩
      · exact ⟨⟨name, some value⟩, hrest ▸ .initialized hname hequals hvalue, rfl⟩
      · exact ⟨⟨name, none⟩, hrest ▸ .plain hname hnext, rfl⟩
    · rintro ⟨written, hwritten, rfl⟩
      generalize htokens : cursor.rest = tokens at hwritten
      cases hwritten with
      | plain hname hnext => exact ⟨_, _, ⟨rfl, hname⟩, .inr ⟨hnext, rfl, rfl⟩⟩
      | initialized hname hequals hvalue =>
          exact ⟨_, _, ⟨rfl, hname⟩, .inl ⟨_, _, rfl, hequals, _, _, hvalue, rfl, rfl⟩⟩

theorem listed_map {α β : Type} {item : List Token → α → List Token → Prop} {f : α → β}
    {tokens rest : List Token} {found : List β} :
    Listed (fun tokens result rest => ∃ written, item tokens written rest ∧ result = f written)
        tokens found rest ↔
      ∃ written, Listed item tokens written rest ∧ found = written.map f := by
  constructor
  · intro hlisted
    induction hlisted with
    | last hitem hnext =>
        obtain ⟨written, hitem, rfl⟩ := hitem
        exact ⟨[written], .last hitem hnext, rfl⟩
    | more hitem hcomma _ ih =>
        obtain ⟨written, hitem, rfl⟩ := hitem
        obtain ⟨others, hothers, rfl⟩ := ih
        exact ⟨written :: others, .more hitem hcomma hothers, rfl⟩
  · rintro ⟨written, hlisted, rfl⟩
    induction hlisted with
    | last hitem hnext => exact .last ⟨_, hitem, rfl⟩ hnext
    | more hitem hcomma _ ih => exact .more ⟨_, hitem, rfl⟩ hcomma ih

theorem follows_declarations (type : ValueType) (line : Nat) {bound : Nat} {cursor : Cursor}
    (hbound : cursor.rest.length ≤ bound) (hexecutable : cursor.executable = false) :
    (declarations type line bound).Follows cursor fun tokens found rest =>
      ∃ written, Listed Declarator.Spelled tokens written rest ∧
        found = written.map (Declarator.lower type) := by
  have hnames : (separated (declarator type bound) bound).Follows cursor fun tokens found rest =>
      ∃ written, Listed Declarator.Spelled tokens written rest ∧
        found = written.map (Declarator.lower type) := by
    refine (follows_separated ?_ hbound fun tokens htokens => ?_).of_iff fun _ _ => listed_map
    · rintro tokens found rest ⟨written, hwritten, -⟩
      exact hwritten.length_lt
    · exact follows_declarator type (htokens.trans hbound)
  refine ⟨fun {result later} => ?_⟩
  rw [declarations, reads_get_bind, hexecutable]
  exact hnames.reads_iff

theorem not_reads_declarations {type : ValueType} {line bound : Nat} {cursor later : Cursor}
    {found : List Stmt} (hexecutable : cursor.executable = true) :
    ¬(declarations type line bound).Reads cursor found later := by
  rw [declarations, reads_get_bind, hexecutable]
  simp [reads_bind]

/-! ### Bodies -/

/-- The reader of one item, at the cursors of a body: it follows the grammar of phrases. -/
def FollowsPhrases (inner : Reading (List Stmt)) (cursor : Cursor) : Prop :=
  ∀ tokens, tokens.length ≤ cursor.rest.length →
    inner.Follows (cursor.goTo tokens) fun tokens found rest =>
      ∃ phrase, Phrase.Spelled tokens phrase rest ∧ found = [phrase.lower]

theorem FollowsPhrases.goTo {inner : Reading (List Stmt)} {cursor : Cursor}
    (hinner : FollowsPhrases inner cursor) {tokens : List Token}
    (hlength : tokens.length ≤ cursor.rest.length) : FollowsPhrases inner (cursor.goTo tokens) :=
  fun others hothers => hinner others (Nat.le_trans hothers hlength)

section Bodies

variable {inner : Reading (List Stmt)} [Forward inner] {cursor : Cursor} {closing : Kind}

theorem items_sound (hinner : FollowsPhrases inner cursor) {rounds : Nat} {found : List Stmt}
    {later : Cursor} (hreads : (items inner closing rounds).Reads cursor found later) :
    ∃ phrases, Phrase.AllSpelled cursor.rest phrases later.rest ∧
      found = Phrase.lowerAll phrases ∧ later = cursor.goTo later.rest := by
  induction rounds generalizing cursor found with
  | zero =>
      obtain ⟨rfl, rfl⟩ := reads_pure.mp hreads
      exact ⟨[], .nil, rfl, rfl⟩
  | succ rounds ih =>
      rw [items, reads_get_bind] at hreads
      split at hreads
      · obtain ⟨rfl, rfl⟩ := reads_pure.mp hreads
        exact ⟨[], .nil, rfl, rfl⟩
      · simp only [reads_bind, reads_pure] at hreads
        obtain ⟨first, between, hfirst, others, last, hothers, rfl, rfl⟩ := hreads
        obtain ⟨middle, ⟨phrase, hphrase, rfl⟩, rfl⟩ :=
          (hinner cursor.rest le_rfl).reads_iff.mp hfirst
        obtain ⟨phrases, hphrases, rfl, hlater⟩ :=
          ih (hinner.goTo (Nat.le_of_lt hphrase.length_lt)) hothers
        exact ⟨phrase :: phrases, .cons hphrase hphrases, rfl, hlater⟩

omit [Forward inner] in
theorem not_closes {first : Token} {others : List Token} (hrest : cursor.rest = first :: others)
    (hend : first.kind ≠ .kwEnd) (hinput : first.kind ≠ .endOfInput) :
    (cursor.seesPair .kwEnd closing || cursor.atEnd) = false := by
  have hpair : cursor.seesPair .kwEnd closing = false := by
    rw [Bool.eq_false_iff, ne_eq, Cursor.seesPair_eq_true]
    rintro ⟨one, two, more, hpair, hone, -⟩
    rw [hrest] at hpair
    exact hend ((List.cons.inj hpair).1 ▸ hone)
  rw [hpair]
  simpa [Cursor.atEnd, Cursor.head_eq, hrest] using hinput

omit [Forward inner] in
theorem reads_items_end {rounds : Nat} {ending ended : Token} {rest : List Token}
    (hrest : cursor.rest = ending :: ended :: rest) (hending : ending.kind = .kwEnd)
    (hended : ended.kind = closing) (hrounds : cursor.rest.length ≤ rounds) :
    (items inner closing rounds).Reads cursor [] cursor := by
  have hpair : cursor.seesPair .kwEnd closing = true :=
    Cursor.seesPair_eq_true.mpr ⟨ending, ended, rest, hrest, hending, hended⟩
  obtain ⟨rounds, rfl⟩ : ∃ fewer, rounds = fewer + 1 :=
    ⟨rounds - 1, by simp only [hrest, List.length_cons] at hrounds; omega⟩
  rw [items, reads_get_bind, hpair, Bool.true_or, if_pos rfl]
  exact reads_pure.mpr ⟨rfl, rfl⟩

/-- A body goes on with whatever does not begin like its end. -/
theorem reads_items_cons {rounds : Nat} {first : Token} {others : List Token}
    {found more : List Stmt} {between later : Cursor} (hrest : cursor.rest = first :: others)
    (hend : first.kind ≠ .kwEnd) (hinput : first.kind ≠ .endOfInput)
    (hfirst : inner.Reads cursor found between)
    (hmore : (items inner closing rounds).Reads between more later) :
    (items inner closing (rounds + 1)).Reads cursor (found ++ more) later := by
  rw [items, reads_get_bind, not_closes hrest hend hinput, if_neg Bool.false_ne_true]
  simp only [reads_bind, reads_pure]
  exact ⟨_, _, hfirst, _, _, hmore, rfl, rfl⟩

theorem items_complete (hinner : FollowsPhrases inner cursor) {rounds : Nat}
    (hrounds : cursor.rest.length ≤ rounds) {phrases : List Phrase} {ending ended : Token}
    {rest : List Token} (hphrases : Phrase.AllSpelled cursor.rest phrases (ending :: ended :: rest))
    (hending : ending.kind = .kwEnd) (hended : ended.kind = closing) :
    (items inner closing rounds).Reads cursor (Phrase.lowerAll phrases)
      (cursor.goTo (ending :: ended :: rest)) := by
  induction phrases generalizing cursor rounds with
  | nil =>
      generalize htokens : cursor.rest = tokens at hphrases
      cases hphrases
      rw [← htokens]
      exact reads_items_end htokens hending hended hrounds
  | cons phrase phrases ih =>
      generalize htokens : cursor.rest = tokens at hphrases
      cases hphrases with
      | cons hphrase hphrases =>
          rename_i middle
          subst htokens
          have hlength := hphrase.length_lt
          obtain ⟨rounds, rfl⟩ : ∃ fewer, rounds = fewer + 1 := ⟨rounds - 1, by omega⟩
          obtain ⟨first, others, hrest, hbegins⟩ := hphrase.begins
          have hfirst : inner.Reads cursor [phrase.lower] (cursor.goTo middle) :=
            (hinner cursor.rest le_rfl).reads_iff.mpr ⟨middle, ⟨phrase, hphrase, rfl⟩, rfl⟩
          have hothers := ih (hinner.goTo (Nat.le_of_lt hlength))
            (Nat.le_of_lt_succ (Nat.lt_of_lt_of_le hlength hrounds)) hphrases
          exact reads_items_cons hrest (Token.Kind.ne_of_beginsPhrase hbegins rfl)
            (Token.Kind.ne_of_beginsPhrase hbegins rfl) hfirst hothers

theorem follows_body (hinner : FollowsPhrases inner cursor) (hclosing : closing ≠ .endOfInput)
    {bound : Nat} (hbound : cursor.rest.length ≤ bound) {message : String} :
    (body inner closing message bound).Follows cursor fun tokens found rest =>
      ∃ phrases ending ended, Phrase.AllSpelled tokens phrases (ending :: ended :: rest) ∧
        ending.kind = .kwEnd ∧ ended.kind = closing ∧ found = Phrase.lowerAll phrases := by
  refine ⟨fun {found later} => ?_⟩
  simp only [body, reads_bind, reads_expect hclosing,
    reads_expect (show Kind.kwEnd ≠ .endOfInput by decide), reads_pure]
  constructor
  · rintro ⟨found, between, hitems, ending, moved, ⟨hending, middle, hmiddle, rfl⟩, ended, last,
      ⟨hended, rest, hrest, rfl⟩, rfl, rfl⟩
    obtain ⟨phrases, hphrases, rfl, hbetween⟩ := items_sound hinner hitems
    have hmiddle' : middle = ended :: rest := hrest
    rw [hmiddle, hmiddle'] at hphrases
    exact ⟨rest, ⟨phrases, ending, ended, hphrases, hending, hended, rfl⟩, by rw [hbetween]; rfl⟩
  · rintro ⟨rest, ⟨phrases, ending, ended, hphrases, hending, hended, rfl⟩, rfl⟩
    exact ⟨_, _, items_complete hinner hbound hphrases hending hended, ending, _,
      ⟨hending, _, rfl, rfl⟩, ended, _, ⟨hended, rest, rfl, rfl⟩, rfl, rfl⟩

theorem follows_keywordBody (hinner : FollowsPhrases inner cursor)
    (hclosing : closing ≠ .endOfInput) {bound : Nat} (hbound : cursor.rest.length ≤ bound)
    {openMessage closeMessage : String} :
    (keywordBody inner closing openMessage closeMessage bound).Follows cursor
      fun tokens found rest => ∃ phrases, Body.Spelled closing tokens (.mk phrases found.1) rest ∧
        found.2 = Phrase.lowerAll phrases := by
  refine (follows_bind (follows_expect (by decide)) fun opening middle hopening =>
    follows_bind (follows_expect hclosing) fun opened tokens hopened =>
      follows_bind (follows_body (hinner.goTo ?_) hclosing ?_) fun _ _ _ =>
        follows_pure).of_iff fun found rest => ?_
  · simp only [Cursor.rest_goTo] at hopened ⊢
    simp only [hopening.1, hopened.1, List.length_cons]
    omega
  · simp only [Cursor.rest_goTo] at hopened ⊢
    simp only [hopening.1, hopened.1, List.length_cons] at hbound
    omega
  · obtain ⟨line, statements⟩ := found
    constructor
    · rintro ⟨opening, middle, ⟨hrest, hopening⟩, opened, tokens, ⟨rfl, hopened⟩, found, last,
        ⟨phrases, ending, ended, hphrases, hending, hended, rfl⟩, hfound, rfl⟩
      cases hfound
      exact ⟨phrases, hrest ▸ .mk hopening hopened hphrases hending hended, rfl⟩
    · rintro ⟨phrases, hbody, rfl⟩
      generalize htokens : cursor.rest = tokens at hbody
      cases hbody with
      | mk hopening hopened hphrases hending hended =>
          exact ⟨_, _, ⟨rfl, hopening⟩, _, _, ⟨rfl, hopened⟩, _, _,
            ⟨phrases, _, _, hphrases, hending, hended, rfl⟩, rfl, rfl⟩

theorem follows_keywordBlock (hinner : FollowsPhrases inner cursor)
    (hclosing : closing ≠ .endOfInput) {bound : Nat} (hbound : cursor.rest.length ≤ bound)
    {openMessage closeMessage : String} :
    (keywordBlock inner closing openMessage closeMessage bound).Follows cursor
      fun tokens found rest => ∃ body, Body.Spelled closing tokens body rest ∧
        found = body.lower := by
  refine (follows_bind (follows_keywordBody hinner hclosing hbound) fun _ _ _ =>
    follows_pure).of_iff fun found rest => ?_
  constructor
  · rintro ⟨⟨line, statements⟩, middle, ⟨phrases, hbody, rfl⟩, rfl, rfl⟩
    exact ⟨.mk phrases line, hbody, rfl⟩
  · rintro ⟨⟨phrases, line⟩, hbody, rfl⟩
    exact ⟨(line, _), rest, ⟨phrases, hbody, rfl⟩, rfl, rfl⟩

end Bodies

end BeginCode.Stmt
