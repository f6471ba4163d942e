import BeginCode.Proofs.PhraseReading

/-!
# Reading a program follows its grammar

A list of tokens is read without a report exactly if it spells one program up to its first end of
input, and then the statement read is the lowered program.
-/

namespace BeginCode.Program

open BeginCode.Token (Kind)
open BeginCode.Reading
open BeginCode.Stmt

/-! ### Items of the program block -/

section Items

variable {bound : Nat} {cursor later : Cursor} {found : List Stmt}

theorem followsPhrases_started (hcode : cursor.codeSeen = true)
    (hbound : cursor.rest.length < bound + 1) (tokens : List Token)
    (htokens : tokens.length < cursor.rest.length) :
    FollowsPhrases (readItem bound) ((started cursor).goTo tokens) := by
  refine followsPhrases_readItem hcode rfl ?_
  rw [Cursor.rest_goTo]
  omega

theorem readItem_sound (hcode : cursor.codeSeen = true) (hbound : cursor.rest.length < bound)
    (hreads : (readItem bound).Reads cursor found later) :
    (cursor.executable = false ∧ ∃ declaration rest,
        Declaration.Spelled cursor.rest declaration rest ∧ found = declaration.lower ∧
          later = cursor.goTo rest) ∨
      ∃ phrase rest, Phrase.Spelled cursor.rest phrase rest ∧ found = [phrase.lower] ∧
        later = (started cursor).goTo rest := by
  cases bound with
  | zero => omega
  | succ bound =>
      rw [readItem, reads_recovering] at hreads
      exact item_sound hcode (Nat.le_of_lt hbound) (followsPhrases_started hcode hbound) hreads

theorem readItem_complete_declaration (hexecutable : cursor.executable = false)
    (hbound : cursor.rest.length < bound) {declaration : Declaration} {rest : List Token}
    (hdeclaration : Declaration.Spelled cursor.rest declaration rest) :
    (readItem bound).Reads cursor declaration.lower (cursor.goTo rest) := by
  cases bound with
  | zero => omega
  | succ bound =>
      rw [readItem, reads_recovering]
      exact item_complete_declaration hexecutable (Nat.le_of_lt hbound) hdeclaration

theorem readItem_complete_phrase (hcode : cursor.codeSeen = true)
    (hbound : cursor.rest.length < bound) {phrase : Phrase} {rest : List Token}
    (hphrase : Phrase.Spelled cursor.rest phrase rest) :
    (readItem bound).Reads cursor [phrase.lower] ((started cursor).goTo rest) := by
  cases bound with
  | zero => omega
  | succ bound =>
      rw [readItem, reads_recovering]
      exact item_complete_phrase (Nat.le_of_lt hbound) (followsPhrases_started hcode hbound) hphrase

/-- Declarations come first: with the first phrase they are over. -/
theorem items_sound (hcode : cursor.codeSeen = true) (hexecutable : cursor.executable = false)
    (hbound : cursor.rest.length < bound) {rounds : Nat} {closing : Kind}
    (hreads : (items (readItem bound) closing rounds).Reads cursor found later) :
    ∃ declarations middle phrases, Declaration.AllSpelled cursor.rest declarations middle ∧
      Phrase.AllSpelled middle phrases later.rest ∧
      found = declarations.flatMap Declaration.lower ++ Phrase.lowerAll phrases ∧
      later.codeSeen = true := by
  induction rounds generalizing cursor found with
  | zero =>
      obtain ⟨rfl, rfl⟩ := reads_pure.mp hreads
      exact ⟨[], _, [], .nil, .nil, rfl, hcode⟩
  | succ rounds ih =>
      rw [items, reads_get_bind] at hreads
      split at hreads
      · obtain ⟨rfl, rfl⟩ := reads_pure.mp hreads
        exact ⟨[], _, [], .nil, .nil, rfl, hcode⟩
      · simp only [reads_bind, reads_pure] at hreads
        obtain ⟨first, between, hfirst, others, last, hothers, rfl, rfl⟩ := hreads
        rcases readItem_sound hcode hbound hfirst with
          ⟨-, declaration, rest, hdeclaration, rfl, rfl⟩ | ⟨phrase, rest, hphrase, rfl, rfl⟩
        · have hcode : (cursor.goTo rest).codeSeen = true := hcode
          have hrest : (cursor.goTo rest).rest.length < bound :=
            hdeclaration.length_lt.trans hbound
          obtain ⟨declarations, middle, phrases, hdeclarations, hphrases, rfl, hlater⟩ :=
            ih hcode hexecutable hrest hothers
          refine ⟨declaration :: declarations, middle, phrases,
            .cons hdeclaration hdeclarations, hphrases, ?_, hlater⟩
          rw [List.flatMap_cons, List.append_assoc]
        · have hinner : FollowsPhrases (readItem bound) ((started cursor).goTo rest) :=
            followsPhrases_readItem hcode rfl (hphrase.length_lt.trans hbound)
          obtain ⟨phrases, hphrases, rfl, hlater⟩ := Stmt.items_sound hinner hothers
          refine ⟨[], _, phrase :: phrases, .nil, .cons hphrase hphrases, rfl, ?_⟩
          rw [hlater]
          exact hcode

theorem items_complete (hcode : cursor.codeSeen = true) (hexecutable : cursor.executable = false)
    (hbound : cursor.rest.length < bound) {rounds : Nat} (hrounds : cursor.rest.length ≤ rounds)
    {closing : Kind} {declarations : List Declaration} {phrases : List Phrase}
    {middle rest : List Token} {ending ended : Token}
    (hdeclarations : Declaration.AllSpelled cursor.rest declarations middle)
    (hphrases : Phrase.AllSpelled middle phrases (ending :: ended :: rest))
    (hending : ending.kind = .kwEnd) (hended : ended.kind = closing) :
    ∃ later, (items (readItem bound) closing rounds).Reads cursor
        (declarations.flatMap Declaration.lower ++ Phrase.lowerAll phrases) later ∧
      later.rest = ending :: ended :: rest ∧ later.codeSeen = true := by
  induction declarations generalizing cursor rounds with
  | nil =>
      generalize htokens : cursor.rest = tokens at hdeclarations
      cases hdeclarations
      subst htokens
      cases phrases with
      | nil =>
          generalize htokens : cursor.rest = tokens at hphrases
          cases hphrases
          exact ⟨cursor, reads_items_end htokens hending hended hrounds, htokens, hcode⟩
      | cons phrase phrases =>
          generalize htokens : cursor.rest = tokens at hphrases
          cases hphrases with
          | @cons _ after _ _ _ hphrase hphrases =>
              subst htokens
              have hlength := hphrase.length_lt
              obtain ⟨rounds, rfl⟩ : ∃ fewer, rounds = fewer + 1 := ⟨rounds - 1, by omega⟩
              obtain ⟨first, others, hrest, hbegins⟩ := hphrase.begins
              have hinner : FollowsPhrases (readItem bound) ((started cursor).goTo after) :=
                followsPhrases_readItem hcode rfl (hlength.trans hbound)
              have hothers := Stmt.items_complete hinner
                (Nat.le_of_lt_succ (Nat.lt_of_lt_of_le hlength hrounds)) hphrases hending hended
              have hreads := reads_items_cons hrest (Token.Kind.ne_of_beginsPhrase hbegins rfl)
                (Token.Kind.ne_of_beginsPhrase hbegins rfl)
                (readItem_complete_phrase hcode hbound hphrase) hothers
              exact ⟨_, hreads, rfl, hcode⟩
  | cons declaration declarations ih =>
      generalize htokens : cursor.rest = tokens at hdeclarations
      cases hdeclarations with
      | @cons _ after _ _ _ hdeclaration hdeclarations =>
          subst htokens
          have hlength := hdeclaration.length_lt
          obtain ⟨rounds, rfl⟩ : ∃ fewer, rounds = fewer + 1 := ⟨rounds - 1, by omega⟩
          obtain ⟨keyword, others, type, hrest, htype⟩ := hdeclaration.begins
          have hafter : (cursor.goTo after).codeSeen = true := hcode
          obtain ⟨later, hothers, hlater⟩ := ih hafter hexecutable (hlength.trans hbound)
            (Nat.le_of_lt_succ (Nat.lt_of_lt_of_le hlength hrounds)) hdeclarations
          refine ⟨later, ?_, hlater⟩
          rw [List.flatMap_cons, List.append_assoc]
          exact reads_items_cons hrest (Token.Kind.ne_of_valueType? htype rfl)
            (Token.Kind.ne_of_valueType? htype rfl)
            (readItem_complete_declaration hexecutable hbound hdeclaration) hothers

end Items

/-! ### The program block -/

section Block

variable {bound : Nat} {cursor later : Cursor} {found : List Stmt}

/-- The position after `BEGIN CODE`. -/
def opened (cursor : Cursor) (tokens : List Token) : Cursor :=
  { cursor with rest := tokens, codeSeen := true, executable := false }

theorem reads_codeBlock {inner : Reading (List Stmt)} [Forward inner]
    (hcode : cursor.codeSeen = false) {opening keyword : Token} {tokens : List Token}
    (hrest : cursor.rest = opening :: keyword :: tokens) (hopening : opening.kind = .kwBegin)
    (hkeyword : keyword.kind = .kwCode) :
    (codeBlock inner bound).Reads cursor found later ↔
      ∃ statements, (body inner .kwCode "Expect 'END CODE' after block." bound).Reads
          (opened cursor tokens) statements later ∧ found = [.block statements opening.line] := by
  have hhead : cursor.head = opening := Cursor.head_cons hrest
  have hadvance : cursor.advance.advance = cursor.goTo tokens := by
    rw [Cursor.advance_cons hrest (by rw [hopening]; decide),
      Cursor.advance_cons (Cursor.rest_goTo _ _) (by rw [hkeyword]; decide), Cursor.goTo_goTo]
  rw [codeBlock, reads_get_bind, reads_advance_bind, reads_advance_bind, hcode, hhead, hadvance]
  have hblock : (body inner .kwCode "Expect 'END CODE' after block." bound >>= fun statements =>
      pure [Stmt.block statements opening.line]).Reads (opened cursor tokens) found later ↔
      ∃ statements, (body inner .kwCode "Expect 'END CODE' after block." bound).Reads
        (opened cursor tokens) statements later ∧ found = [.block statements opening.line] := by
    rw [reads_bind]
    constructor
    · rintro ⟨statements, between, hbody, hfound⟩
      obtain ⟨rfl, rfl⟩ := reads_pure.mp hfound
      exact ⟨statements, hbody, rfl⟩
    · rintro ⟨statements, hbody, rfl⟩
      exact ⟨statements, later, hbody, reads_pure.mpr ⟨rfl, rfl⟩⟩
  exact hblock

theorem codeBlock_sound (hcode : cursor.codeSeen = false) (hbound : cursor.rest.length ≤ bound)
    (hpair : cursor.seesPair .kwBegin .kwCode = true)
    (hreads : (codeBlock (readItem bound) bound).Reads cursor found later) :
    ∃ program, Source.Spelled cursor.rest program later.rest ∧ found = [program.lower] ∧
      later.codeSeen = true := by
  obtain ⟨opening, keyword, tokens, hrest, hopening, hkeyword⟩ := Cursor.seesPair_eq_true.mp hpair
  obtain ⟨statements, hbody, rfl⟩ := (reads_codeBlock hcode hrest hopening hkeyword).mp hreads
  have hlength : (opened cursor tokens).rest.length < bound := by
    rw [hrest, List.length_cons, List.length_cons] at hbound
    exact Nat.lt_of_lt_of_le (by change tokens.length < _; omega) hbound
  simp only [body, reads_bind, reads_expect (show Kind.kwCode ≠ .endOfInput by decide),
    reads_expect (show Kind.kwEnd ≠ .endOfInput by decide), reads_pure] at hbody
  obtain ⟨statements, between, hitems, ending, moved, ⟨hending, middle, hmiddle, rfl⟩, ended, last,
    ⟨hended, rest, hlast, rfl⟩, rfl, rfl⟩ := hbody
  obtain ⟨declarations, inside, phrases, hdeclarations, hphrases, rfl, hseen⟩ :=
    items_sound rfl rfl hlength hitems
  have hmiddle' : middle = ended :: rest := hlast
  rw [hmiddle, hmiddle'] at hphrases
  refine ⟨⟨declarations, phrases, opening.line⟩, ?_, rfl, hseen⟩
  rw [hrest]
  exact .mk hopening hkeyword hdeclarations hphrases hending hended

theorem codeBlock_complete (hcode : cursor.codeSeen = false) (hbound : cursor.rest.length ≤ bound)
    {program : Source} {rest : List Token} (hprogram : Source.Spelled cursor.rest program rest) :
    cursor.seesPair .kwBegin .kwCode = true ∧
      ∃ later, (codeBlock (readItem bound) bound).Reads cursor [program.lower] later ∧
        later.rest = rest ∧ later.codeSeen = true := by
  generalize htokens : cursor.rest = spelled at hprogram
  cases hprogram with
  | @mk opening keyword ending ended tokens middle _ declarations phrases hopening hkeyword
      hdeclarations hphrases hending hended =>
      refine ⟨Cursor.seesPair_eq_true.mpr ⟨_, _, _, htokens, hopening, hkeyword⟩, ?_⟩
      have hlength : (opened cursor tokens).rest.length < bound := by
        rw [htokens, List.length_cons, List.length_cons] at hbound
        exact Nat.lt_of_lt_of_le (by change tokens.length < _; omega) hbound
      have hspelled : Declaration.AllSpelled (opened cursor tokens).rest declarations middle :=
        hdeclarations
      obtain ⟨between, hitems, hbetween, hseen⟩ := items_complete rfl rfl hlength
        (Nat.le_of_lt hlength) hspelled hphrases hending hended
      refine ⟨between.goTo rest, (reads_codeBlock hcode htokens hopening hkeyword).mpr
        ⟨_, ?_, rfl⟩, rfl, hseen⟩
      simp only [body, reads_bind, reads_expect (show Kind.kwCode ≠ .endOfInput by decide),
        reads_expect (show Kind.kwEnd ≠ .endOfInput by decide), reads_pure]
      exact ⟨_, between, hitems, ending, _, ⟨hending, _, hbetween, rfl⟩, ended, _,
        ⟨hended, rest, rfl, rfl⟩, rfl, rfl⟩

end Block

/-! ### Whole inputs -/

instance forward_topLevel (bound : Nat) : Forward (topLevel bound) := by
  unfold topLevel
  infer_instance

instance forward_topLevels (bound rounds : Nat) : Forward (topLevels bound rounds) := by
  induction rounds with
  | zero =>
      unfold topLevels
      infer_instance
  | succ rounds ih =>
      unfold topLevels
      infer_instance

instance forward_read : Forward read := by
  unfold read
  infer_instance

section Whole

variable {bound rounds : Nat} {cursor later : Cursor} {found : List Stmt}

/-- After the program block nothing but the end of input is read silently. -/
theorem topLevels_sound_of_seen (hcode : cursor.codeSeen = true)
    (hrounds : cursor.rest.length ≤ rounds)
    (hreads : (topLevels bound rounds).Reads cursor found later) :
    found = [] ∧ later = cursor ∧ cursor.atEnd = true := by
  cases rounds with
  | zero =>
      obtain ⟨hfound, hlater⟩ := reads_pure.mp hreads
      have hrest : cursor.rest = [] := List.length_eq_zero_iff.mp (Nat.le_zero.mp hrounds)
      exact ⟨hfound, hlater, by rw [Cursor.atEnd, Cursor.head_eq, hrest]; rfl⟩
  | succ rounds =>
      rw [topLevels, reads_get_bind] at hreads
      split at hreads
      · rename_i hend
        obtain ⟨rfl, rfl⟩ := reads_pure.mp hreads
        exact ⟨rfl, rfl, hend⟩
      · rw [reads_bind] at hreads
        obtain ⟨first, between, hfirst, -⟩ := hreads
        rw [reads_recovering, topLevel, reads_get_bind] at hfirst
        split at hfirst
        · exact absurd hfirst (not_reads_codeBlock hcode)
        · exact absurd hfirst not_reads_fail

theorem topLevels_sound (hcode : cursor.codeSeen = false) (hbound : cursor.rest.length ≤ bound)
    (hrounds : cursor.rest.length ≤ rounds)
    (hreads : (topLevels bound rounds).Reads cursor found later) :
    later.codeSeen = false ∨
      ∃ program, Source.Spelled cursor.rest program later.rest ∧ found = [program.lower] ∧
        later.atEnd = true := by
  cases rounds with
  | zero =>
      obtain ⟨rfl, rfl⟩ := reads_pure.mp hreads
      exact .inl hcode
  | succ rounds =>
      rw [topLevels, reads_get_bind] at hreads
      split at hreads
      · obtain ⟨rfl, rfl⟩ := reads_pure.mp hreads
        exact .inl hcode
      · simp only [reads_bind, reads_recovering, reads_pure] at hreads
        obtain ⟨first, between, hfirst, others, last, hothers, rfl, rfl⟩ := hreads
        rw [topLevel, reads_get_bind] at hfirst
        split at hfirst
        · rename_i hpair
          obtain ⟨program, hprogram, rfl, hseen⟩ := codeBlock_sound hcode hbound hpair hfirst
          have hlength := hprogram.length_lt
          obtain ⟨rfl, rfl, hend⟩ := topLevels_sound_of_seen hseen (by omega) hothers
          exact .inr ⟨program, hprogram, rfl, hend⟩
        · exact absurd hfirst not_reads_fail

theorem topLevels_complete (hcode : cursor.codeSeen = false) (hbound : cursor.rest.length ≤ bound)
    (hrounds : cursor.rest.length ≤ rounds) {program : Source} {rest : List Token}
    (hprogram : Source.Spelled cursor.rest program rest)
    (hend : (rest.headD .pastEnd).kind = .endOfInput) :
    ∃ later, (topLevels bound rounds).Reads cursor [program.lower] later ∧
      later.codeSeen = true := by
  obtain ⟨hpair, later, hblock, rfl, hseen⟩ := codeBlock_complete hcode hbound hprogram
  have hlength := hprogram.length_lt
  obtain ⟨rounds, rfl⟩ : ∃ fewer, rounds = fewer + 1 := ⟨rounds - 1, by omega⟩
  have hbegun : ¬cursor.atEnd = true := by
    obtain ⟨opening, _, _, hrest, hopening, -⟩ := Cursor.seesPair_eq_true.mp hpair
    simp [Cursor.atEnd, Cursor.head_eq, hrest, hopening]
  have hdone : (topLevels bound rounds).Reads later [] later := by
    cases rounds with
    | zero => exact reads_pure.mpr ⟨rfl, rfl⟩
    | succ rounds =>
        rw [topLevels, reads_get_bind, if_pos (by simpa [Cursor.atEnd, Cursor.head_eq] using hend)]
        exact reads_pure.mpr ⟨rfl, rfl⟩
  refine ⟨later, ?_, hseen⟩
  rw [topLevels, reads_get_bind, if_neg hbegun]
  simp only [reads_bind, reads_recovering, reads_pure]
  refine ⟨[program.lower], later, ?_, [], later, hdone, rfl, rfl⟩
  rw [topLevel, reads_get_bind, if_pos hpair]
  exact hblock

/-- What reading does once everything is read. -/
theorem reads_read : read.Reads cursor found later ↔
    (topLevels cursor.rest.length cursor.rest.length).Reads cursor found later ∧
      (later.codeSeen = true ∨ cursor.report.hasStaticError = true) := by
  rw [read, reads_get_bind, reads_bind]
  constructor
  · rintro ⟨statements, between, hstatements, hreads⟩
    rw [reads_get_bind] at hreads
    split at hreads
    · simp only [reads_bind, not_reads_report, false_and, exists_false] at hreads
    · rename_i hquiet
      obtain ⟨rfl, rfl⟩ := reads_pure.mp hreads
      rw [hstatements.2] at hquiet
      refine ⟨hstatements, ?_⟩
      simpa [or_iff_not_imp_left] using hquiet
  · rintro ⟨hstatements, hseen⟩
    refine ⟨found, later, hstatements, ?_⟩
    have hquiet : ¬(!later.codeSeen && !later.report.hasStaticError) = true := by
      rw [hstatements.2]
      rcases hseen with hseen | hseen <;> simp [hseen]
    rw [reads_get_bind, if_neg hquiet]
    exact reads_pure.mpr ⟨rfl, rfl⟩

end Whole

theorem exists_run_recovering (construct : Reading (List Stmt)) (cursor : Cursor) :
    ∃ found later, (recovering construct).run cursor = .ok found later := by
  rw [run_recovering]
  cases construct.run cursor with
  | ok found after => exact ⟨_, _, rfl⟩
  | error error after => exact ⟨_, _, rfl⟩

theorem exists_run_topLevels (bound rounds : Nat) (cursor : Cursor) :
    ∃ found later, (topLevels bound rounds).run cursor = .ok found later := by
  induction rounds generalizing cursor with
  | zero => exact ⟨_, _, rfl⟩
  | succ rounds ih =>
      rw [topLevels, EStateM.run_bind, EStateM.run_get]
      dsimp only
      split
      · exact ⟨_, _, rfl⟩
      · obtain ⟨first, between, hfirst⟩ := exists_run_recovering (topLevel bound) cursor
        obtain ⟨others, later, hothers⟩ := ih between
        refine ⟨first ++ others, later, ?_⟩
        simp only [EStateM.run_bind, hfirst, hothers]
        rfl

/-- Reading never fails as a whole: what cannot be read is reported. -/
theorem exists_run_read (cursor : Cursor) : ∃ found later, read.run cursor = .ok found later := by
  obtain ⟨statements, between, hrun⟩ :=
    exists_run_topLevels cursor.rest.length cursor.rest.length cursor
  simp only [read, EStateM.run_bind, EStateM.run_get, hrun]
  split
  · exact ⟨_, _, rfl⟩
  · exact ⟨_, _, rfl⟩

/-- A silent parse is a silent reading. -/
theorem parse_eq_iff {tokens : List Token} {report : Report} {found : List Stmt} :
    parse tokens report = (found, report) ↔
      ∃ later, read.Reads { rest := tokens, report } found later := by
  obtain ⟨statements, later, hrun⟩ := exists_run_read { rest := tokens, report }
  simp only [parse, Reads, hrun]
  constructor
  · intro hparse
    obtain ⟨rfl, hreport⟩ := Prod.mk.inj hparse
    exact ⟨later, rfl, hreport⟩
  · rintro ⟨_, hsame, hreport⟩
    cases hsame
    exact Prod.ext rfl hreport

/-- Where a reading has come to the end, what is left begins with the first end of input. -/
theorem rest_eq_dropWhile {cursor later : Cursor} (hleads : cursor.LeadsTo later)
    (hend : later.atEnd = true) :
    later.rest = cursor.rest.dropWhile fun token => token.kind != .endOfInput := by
  obtain ⟨used, hrest, hused⟩ := hleads.rest
  have hskip : ∀ token ∈ used, (token.kind != .endOfInput) = true := by
    intro token hmem
    simpa using hused token hmem
  rw [hrest, List.dropWhile_append_of_pos hskip]
  cases hlater : later.rest with
  | nil => rfl
  | cons token others =>
      rw [Cursor.atEnd, Cursor.head_eq, hlater] at hend
      rw [List.dropWhile_cons_of_neg (by simpa using hend)]

theorem parse_sound {tokens : List Token} (hreport : (parse tokens .empty).2 = .empty) :
    ∃ program, (parse tokens .empty).1 = [program.lower] ∧
      Source.Spelled tokens program
        (tokens.dropWhile fun token => token.kind != .endOfInput) := by
  obtain ⟨later, hreads⟩ := parse_eq_iff.mp (Prod.ext rfl hreport)
  obtain ⟨hstatements, hseen⟩ := reads_read.mp hreads
  rcases topLevels_sound rfl le_rfl le_rfl hstatements with hunseen |
    ⟨program, hprogram, hfound, hend⟩
  · rw [hunseen] at hseen
    simp [Report.hasStaticError] at hseen
  · refine ⟨program, hfound, ?_⟩
    rw [rest_eq_dropWhile hreads.leadsTo hend] at hprogram
    exact hprogram

/-- Parsing adds to the report it is given. -/
theorem report_eq_empty_of_parse {tokens : List Token} {report : Report}
    (hsilent : (parse tokens report).2 = .empty) : report = .empty := by
  obtain ⟨found, later, hrun⟩ := exists_run_read { rest := tokens, report }
  have hleads := forward_read.leadsTo { rest := tokens, report }
  rw [final_of_ok hrun] at hleads
  have hlater : later.report = .empty := by
    simpa only [parse, hrun] using hsilent
  have hentries : report.entries <+: [] := by
    have hprefix := hleads.report
    rwa [hlater] at hprefix
  exact congrArg Report.mk (List.prefix_nil.mp hentries)

theorem parse_complete {tokens rest : List Token} {program : Source} (report : Report)
    (hprogram : Source.Spelled tokens program rest)
    (hend : (rest.headD .pastEnd).kind = .endOfInput) :
    parse tokens report = ([program.lower], report) := by
  have hcode : Cursor.codeSeen { rest := tokens, report } = false := rfl
  obtain ⟨later, hreads, hseen⟩ := topLevels_complete hcode le_rfl le_rfl hprogram hend
  exact parse_eq_iff.mpr ⟨later, reads_read.mpr ⟨hreads, .inl hseen⟩⟩

end BeginCode.Program
