import BeginCode.Proofs.PhraseCompletion
import BeginCode.Proofs.Targets

/-!
# The first syntax error is never late

The tokens before the first error that ends a construct can be completed to a program without
errors, except if one of them assigns to something other than a variable: this is reported after the
assigned value and does not end the construct, so an error in the value comes first.
-/

namespace BeginCode

open BeginCode.Token (Kind)
open BeginCode.Reading
open BeginCode.Stmt

theorem Declaration.local_allSpelled : (Shape.ofGrammar AllSpelled).Local Closing := by
  rintro tokens rest ⟨declarations, hspelled⟩
  induction hspelled with
  | nil => exact ⟨[], rfl, fun _ _ => ⟨[], .nil⟩⟩
  | cons hdeclaration _ ih =>
      obtain ⟨used, rfl, hbefore⟩ := Declaration.local_spelled _ hdeclaration
      obtain ⟨more, rfl, hother⟩ := ih
      refine ⟨used ++ more, by simp, fun other hfits => ?_⟩
      obtain ⟨others, hothers⟩ := hother other hfits
      rw [List.append_assoc]
      exact ⟨_, .cons (hbefore _ (hfits.append more)) hothers⟩

namespace Program

/-! ### The program block -/

/-- The declarations and phrases of the program block. -/
def contents : Shape := .next (.ofGrammar Declaration.AllSpelled) (.ofGrammar Phrase.AllSpelled)

theorem local_contents : contents.Local Closing :=
  Shape.local_next Declaration.local_allSpelled Phrase.local_allSpelled

theorem completes_contents : contents.Completes Closing Closing [] :=
  ⟨[], fun rest hclosing => ⟨⟨rest, ⟨[], .nil⟩, [], .nil⟩, fun _ => hclosing⟩⟩

section Block

variable {bound : Nat} {cursor : Cursor} {follow : List Token → Prop}

/-- One item at the beginning of the contents. -/
theorem viable_firstItem (hcode : cursor.codeSeen = true) (hbound : cursor.rest.length < bound) :
    (strictItem bound).Viable cursor contents (fun _ => True) Closing := by
  cases bound with
  | zero => omega
  | succ bound =>
      have hitem := viable_item hcode hbound.le fun tokens htokens =>
        readsPhrases_strictItem hcode rfl (Nat.lt_of_lt_of_le htokens (Nat.le_of_lt_succ hbound))
      refine hitem.of_imp ?_
      rintro tokens rest - (⟨-, declaration, hdeclaration⟩ | ⟨phrase, hphrase⟩)
      · exact ⟨rest, ⟨[declaration], .cons hdeclaration .nil⟩, [], .nil⟩
      · exact ⟨tokens, ⟨[], .nil⟩, [phrase], .cons hphrase .nil⟩

theorem viable_contents (hcode : cursor.codeSeen = true) (hexecutable : cursor.executable = false)
    (hbound : cursor.rest.length < bound) (closing : Kind) (rounds : Nat) :
    (items (strictItem bound) closing rounds).Viable cursor contents Closing Closing := by
  induction rounds generalizing cursor with
  | zero => exact viable_pure
  | succ rounds ih =>
      refine viable_get_bind (viable_ite (fun _ => viable_pure) fun _ => ?_)
      refine Viable.orNothing completes_contents ?_
      intro error later used hfails hused hclean
      rcases fails_bind hfails with hfirst | ⟨found, between, hfirst, hothers⟩
      · exact viable_firstItem hcode hbound hfirst hused hclean
      · obtain ⟨front, hfront, -⟩ := hfirst.leadsTo.rest
        obtain ⟨more, hmore, rfl⟩ := hothers.split hfront hused
        have hrest : ¬Expr.Misplaced more := fun hmisplaced => hclean (hmisplaced.append_left front)
        -- After a declaration the contents go on as before, after a phrase with phrases only.
        rcases readItem_sound hcode hbound ((shadows_strictItem bound).reads_iff.mp hfirst) with
          ⟨-, declaration, rest, hdeclaration, rfl, rfl⟩ | ⟨phrase, rest, hphrase, rfl, rfl⟩
        · have hseen : (cursor.goTo rest).codeSeen = true := hcode
          have hlength : (cursor.goTo rest).rest.length < bound :=
            hdeclaration.length_lt.trans hbound
          have hcompletes := viable_bind_pure (ih hseen hexecutable hlength) hothers hmore hrest
          rw [Cursor.rest_goTo] at hmore hfront
          rw [hfront, hmore] at hdeclaration
          refine (Shape.completes_behind (Shape.local_ofGrammar Declaration.local_spelled)
            ⟨_, hdeclaration⟩ hcompletes).of_imp ?_
          rintro tokens rest - ⟨_, ⟨first, hfirst⟩, middle, ⟨others, hothers⟩, hphrases⟩
          exact ⟨middle, ⟨first :: others, .cons hfirst hothers⟩, hphrases⟩
        · have hinner : ReadsPhrases (strictItem bound) ((started cursor).goTo rest) :=
            readsPhrases_strictItem hcode rfl (hphrase.length_lt.trans hbound)
          have hcompletes :=
            viable_bind_pure (viable_items hinner closing rounds) hothers hmore hrest
          rw [Cursor.rest_goTo] at hmore hfront
          rw [hfront, hmore] at hphrase
          refine (Shape.completes_behind Phrase.local_spelled ⟨_, hphrase⟩ hcompletes).of_imp ?_
          rintro tokens rest - ⟨_, ⟨first, hfirst⟩, others, hothers⟩
          exact ⟨tokens, ⟨[], .nil⟩, first :: others, .cons hfirst hothers⟩

/-- The keywords that open the program block, its contents and the keywords that close it. -/
theorem spelled_of_contents {opening keyword : Token} (hopening : opening.kind = .kwBegin)
    (hkeyword : keyword.kind = .kwCode) (tokens rest : List Token)
    (hcontents : contents.next (ending .kwCode) tokens rest) :
    ((Shape.ofGrammar Source.Spelled).behind opening).behind keyword tokens rest := by
  obtain ⟨_, ⟨middle, ⟨declarations, hdeclarations⟩, phrases, hphrases⟩, _, ⟨ending, rfl, hending⟩,
    _, ⟨ended, rfl, hended⟩, rfl⟩ := hcontents
  exact ⟨_, .mk hopening hkeyword hdeclarations hphrases hending hended⟩

theorem completes_source :
    (Shape.ofGrammar Source.Spelled).Completes (fun _ => True) follow [] := by
  have hcontents : (contents.next (ending .kwCode)).Completes (fun _ => True) follow [] :=
    (Shape.completes_next completes_contents (completes_ending .kwCode)).anyStart
  refine (Shape.completes_next (Shape.completes_token .kwBegin)
    (Shape.completes_next (Shape.completes_token .kwCode) hcontents)).of_imp ?_
  rintro tokens rest - ⟨_, ⟨opening, rfl, hopening⟩, _, ⟨keyword, rfl, hkeyword⟩, hcontents⟩
  exact spelled_of_contents hopening hkeyword _ _ hcontents

theorem local_source : (Shape.ofGrammar Source.Spelled).Local fun _ => True := by
  rintro tokens rest ⟨program, hspelled⟩
  cases hspelled with
  | @mk opening opened ending ended _ _ _ _ _ hopening hopened hdeclarations hphrases hending
      hended =>
      obtain ⟨used, rfl, hother⟩ := local_contents ⟨_, ⟨_, hdeclarations⟩, _, hphrases⟩
      refine ⟨opening :: opened :: (used ++ [ending, ended]), by simp, fun other _ => ?_⟩
      obtain ⟨_, ⟨declarations, hbefore⟩, phrases, hafter⟩ :=
        hother (ending :: ended :: other) (.inl rfl)
      rw [List.cons_append, List.cons_append, List.append_assoc]
      exact ⟨_, .mk hopening hopened hbefore hafter hending hended⟩

theorem viable_codeBlock (hcode : cursor.codeSeen = false) (hbound : cursor.rest.length ≤ bound)
    (hpair : cursor.seesPair .kwBegin .kwCode = true) :
    (codeBlock (strictItem bound) bound).Viable cursor (.ofGrammar Source.Spelled) (fun _ => True)
      follow := by
  obtain ⟨opening, keyword, tokens, hrest, hopening, hkeyword⟩ := Cursor.seesPair_eq_true.mp hpair
  have hlength : (opened cursor tokens).rest.length < bound := by
    rw [hrest, List.length_cons, List.length_cons] at hbound
    exact Nat.lt_of_lt_of_le (by change tokens.length < _; omega) hbound
  have hbody : (body (strictItem bound) .kwCode "Expect 'END CODE' after block." bound).Viable
      (opened cursor tokens) (contents.next (ending .kwCode)) (fun _ => True) follow := by
    refine viable_body (by decide) local_contents (viable_contents rfl rfl hlength .kwCode bound)
      fun found later hreads => ?_
    have hitems := (shadows_items (shadows_strictItem bound) .kwCode bound).reads_iff.mp hreads
    obtain ⟨declarations, middle, phrases, hdeclarations, hphrases, -⟩ :=
      items_sound rfl rfl hlength hitems
    exact ⟨middle, ⟨declarations, hdeclarations⟩, phrases, hphrases⟩
  refine viable_get_bind ?_
  simp only [hcode, Bool.false_eq_true, if_false]
  refine viable_advance_bind hrest (by rw [hopening]; decide) ?_
  refine viable_advance_bind (Cursor.rest_goTo _ _) (by rw [hkeyword]; decide) ?_
  exact (viable_bind_pure hbody).of_imp fun _ _ _ => spelled_of_contents hopening hkeyword _ _

end Block

/-! ### Whole inputs -/

section Whole

variable {bound rounds : Nat} {cursor : Cursor} {follow : List Token → Prop}

/-- After the program block every further token is an error. -/
theorem viable_afterBlock (hcode : cursor.codeSeen = true) :
    (strictTopLevels bound rounds).Viable cursor .nothing (fun _ => True) follow := by
  have htopLevel : (strictTopLevel bound).Viable cursor .nothing (fun _ => True) follow :=
    viable_get_bind (viable_ite (fun hpair => viable_nestedCode hcode hpair) fun _ =>
      viable_fail (Shape.completes_nothing fun _ _ => trivial))
  cases rounds with
  | zero => exact viable_pure
  | succ rounds =>
      refine viable_get_bind (viable_ite (fun _ => viable_pure) fun _ => ?_)
      intro error later used hfails hused hclean
      rcases fails_bind hfails with hfirst | ⟨found, between, hreads, -⟩
      · exact htopLevel hfirst hused hclean
      · rw [strictTopLevel, reads_get_bind] at hreads
        split at hreads
        · exact absurd hreads (not_reads_codeBlock hcode)
        · exact absurd hreads not_reads_fail

theorem viable_strictTopLevels (hcode : cursor.codeSeen = false)
    (hbound : cursor.rest.length ≤ bound) :
    (strictTopLevels bound rounds).Viable cursor (.ofGrammar Source.Spelled) (fun _ => True)
      fun _ => True := by
  have htopLevel : (strictTopLevel bound).Viable cursor (.ofGrammar Source.Spelled)
      (fun _ => True) fun _ => True :=
    viable_get_bind (viable_ite (fun hpair => viable_codeBlock hcode hbound hpair) fun _ =>
      viable_fail completes_source)
  cases rounds with
  | zero => exact viable_pure
  | succ rounds =>
      refine viable_get_bind (viable_ite (fun _ => viable_pure) fun _ => ?_)
      refine (viable_then local_source htopLevel (fun found between hreads => ?_)
        (Shape.completes_nothing fun _ _ => trivial)).of_imp ?_
      · rw [strictTopLevel, reads_get_bind] at hreads
        split at hreads
        · rename_i hpair
          have hblock :=
            (shadows_codeBlock (shadows_strictItem bound) bound).reads_iff.mp hreads
          obtain ⟨program, hprogram, -, hseen⟩ := codeBlock_sound hcode hbound hpair hblock
          exact ⟨⟨program, hprogram⟩, viable_bind_pure (viable_afterBlock hseen)⟩
        · exact absurd hreads not_reads_fail
      · rintro tokens rest - ⟨_, hprogram, rfl⟩
        exact hprogram

theorem viable_strictRead (tokens : List Token) :
    strictRead.Viable { rest := tokens } (.ofGrammar Source.Spelled) (fun _ => True)
      fun _ => True := by
  -- The check for a missing program block reports and does not fail.
  refine viable_get_bind (viable_bind_quiet (fun found between error later hfails => ?_)
    (viable_strictTopLevels rfl le_rfl))
  obtain ⟨hrun, -⟩ := hfails
  rw [EStateM.run_bind, EStateM.run_get] at hrun
  dsimp only at hrun
  split at hrun <;> cases hrun

end Whole

/-! ### Tokens before the first error -/

theorem exists_completion {tokens used : List Token} {error : SyntaxError} {later : Cursor}
    (hfails : strictRead.Fails { rest := tokens } error later) (hused : tokens = used ++ later.rest)
    (hclean : ¬Expr.Misplaced used) :
    ∃ others, (parse (used ++ others) .empty).2 = .empty := by
  obtain ⟨added, hadded⟩ := viable_strictRead tokens hfails hused hclean
  obtain ⟨⟨program, hprogram⟩, -⟩ := hadded [] trivial
  rw [List.append_nil] at hprogram
  exact ⟨added, by rw [parse_complete .empty hprogram rfl]⟩

/-- What can be completed assigns to variables only. -/
theorem not_misplaced_of_completion {used others : List Token}
    (hused : ∀ token ∈ used, token.kind ≠ .endOfInput)
    (hsilent : (parse (used ++ others) .empty).2 = .empty) : ¬Expr.Misplaced used := by
  obtain ⟨program, -, hprogram⟩ := parse_sound hsilent
  have hskip : ∀ token ∈ used, (token.kind != .endOfInput) = true := by
    intro token hmem
    simpa using hused token hmem
  rw [List.dropWhile_append_of_pos hskip] at hprogram
  obtain ⟨whole, hwhole, horderly⟩ := hprogram.tidy [] settled_nil
  have hsplit : (used ++ others.takeWhile fun token => token.kind != .endOfInput) ++
      (others.dropWhile fun token => token.kind != .endOfInput) =
      whole ++ others.dropWhile fun token => token.kind != .endOfInput := by
    rw [List.append_assoc, List.takeWhile_append_dropWhile, hwhole]
  rw [← List.append_cancel_right hsplit] at horderly
  exact horderly.placed.not_misplaced

/-- If the first error ends its construct, it describes the token at which it is found, and the
tokens before that one are the beginning of a program without errors exactly if they assign to
variables only. -/
theorem firstFailure_viable_iff {tokens : List Token} {error : SyntaxError}
    (hfirst : (parse tokens .empty).2.entries.head? = some (.grammatical error))
    (haborts : error.cause.aborts = true) :
    ∃ index, firstFailure? tokens = some (error, index) ∧
      SyntaxError.At error ((tokens.drop index).headD .pastEnd) ∧
      ((∃ others, (parse (tokens.take index ++ others) .empty).2 = .empty) ↔
        ¬Expr.Misplaced (tokens.take index)) := by
  obtain ⟨later, hfails, hat⟩ := fails_strictRead hfirst haborts
  have hleads := forward_strictRead.leadsTo { rest := tokens }
  rw [final_of_error hfails.1] at hleads
  obtain ⟨used, hused, hnotEnd⟩ := hleads.rest
  have hused : tokens = used ++ later.rest := hused
  have hindex : tokens.length - later.rest.length = used.length := by
    rw [hused, List.length_append, Nat.add_sub_cancel]
  refine ⟨used.length, ?_, ?_, ?_⟩
  · rw [firstFailure?, hfails.1]
    exact congrArg (fun index => some (error, index)) hindex
  · rw [hused, List.drop_left]
    exact hat
  · have htake : tokens.take used.length = used := by rw [hused, List.take_left]
    rw [htake]
    constructor
    · rintro ⟨others, hsilent⟩
      exact not_misplaced_of_completion hnotEnd hsilent
    · exact exists_completion hfails hused

/-- `WHILE (a < (1 +` and no operand. -/
def unclosed : List Token :=
  [⟨.kwBegin, "BEGIN", 1, none⟩, ⟨.kwCode, "CODE", 1, none⟩, ⟨.kwWhile, "WHILE", 2, none⟩,
    ⟨.leftParen, "(", 2, none⟩, ⟨.identifier, "a", 2, none⟩, ⟨.less, "<", 2, none⟩,
    ⟨.leftParen, "(", 2, none⟩, ⟨.integer, "1", 2, some (.integer 1)⟩, ⟨.plus, "+", 2, none⟩,
    ⟨.kwBegin, "BEGIN", 3, none⟩, ⟨.kwWhile, "WHILE", 3, none⟩, ⟨.kwEnd, "END", 4, none⟩,
    ⟨.kwCode, "CODE", 4, none⟩, ⟨.endOfInput, "", 4, none⟩]

theorem firstFailure_viable_unclosed :
    firstFailure? unclosed = some (⟨.expectedExpression "'BEGIN'", 3⟩, 9) ∧
      ∃ others, (parse (unclosed.take 9 ++ others) .empty).2 = .empty := by
  have hfirst : (parse unclosed .empty).2.entries.head? =
      some (.grammatical ⟨.expectedExpression "'BEGIN'", 3⟩) := by decide
  have hplace : firstFailure? unclosed = some (⟨.expectedExpression "'BEGIN'", 3⟩, 9) := by decide
  obtain ⟨index, hindex, -, hviable⟩ := firstFailure_viable_iff hfirst rfl
  obtain rfl : index = 9 := by
    rw [hplace] at hindex
    cases hindex
    rfl
  refine ⟨hplace, hviable.mpr ?_⟩
  rintro ⟨before, target, equals, after, expr, htokens, hequals, -⟩
  have hmem : equals ∈ unclosed.take 9 := by simp [htokens]
  have hnone : ∀ token ∈ unclosed.take 9, token.kind ≠ .equals := by decide
  exact hnone equals hmem hequals

/-- `1 =` and no value: the missing value is found before the target is reported. -/
def literalTarget : List Token :=
  [⟨.kwBegin, "BEGIN", 1, none⟩, ⟨.kwCode, "CODE", 1, none⟩,
    ⟨.integer, "1", 1, some (.integer 1)⟩, ⟨.equals, "=", 1, none⟩, ⟨.kwEnd, "END", 1, none⟩,
    ⟨.kwCode, "CODE", 1, none⟩, ⟨.endOfInput, "", 1, none⟩]

theorem literalTarget_not_viable :
    (parse literalTarget .empty).2.entries.head? =
        some (.grammatical ⟨.expectedExpression "'END'", 1⟩) ∧
      firstFailure? literalTarget = some (⟨.expectedExpression "'END'", 1⟩, 4) ∧
      ∀ others, (parse (literalTarget.take 4 ++ others) .empty).2 ≠ .empty := by
  refine ⟨by decide, by decide, fun others hsilent => ?_⟩
  have hused : ∀ token ∈ literalTarget.take 4, token.kind ≠ .endOfInput := by decide
  have htarget : Expr.Derives .disjunction
      [⟨.integer, "1", 1, some (.integer 1)⟩, ⟨.equals, "=", 1, none⟩] (.literal (.integer 1) 1)
      [⟨.equals, "=", 1, none⟩] := .of_operand .disjunction (.literal rfl)
  refine not_misplaced_of_completion hused hsilent ⟨literalTarget.take 2,
    [⟨.integer, "1", 1, some (.integer 1)⟩], ⟨.equals, "=", 1, none⟩, [], _, by decide, rfl,
    htarget, fun name hvariable => ?_⟩
  cases hvariable

end Program

end BeginCode
