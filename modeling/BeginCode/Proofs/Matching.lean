import BeginCode.Proofs.Forward
import BeginCode.Proofs.Lockstep
import BeginCode.Proofs.Unlined

/-!
# Cursors up to lines

Two cursors match if their tokens differ in their lines only and agree where a line matters: whether
the token after a line-break symbol is still on its line. Readings agree if from matching cursors
they have the same outcome up to lines; each operation of a reading has its rule.
-/

namespace BeginCode

open BeginCode.Token (Kind)

/-- The tokens differ in their lines only, and they agree on what stays on the line of a line-break
symbol. The symbol itself counts as a line end. -/
inductive Token.AllMatch : List Token → List Token → Prop where
  | nil : AllMatch [] []
  | cons {one two : Token} {rest others : List Token} (htoken : one.unlined = two.unlined)
      (hbreak : one.kind = .lineBreak →
        ((rest.headD .pastEnd).line ≤ one.line + 1 ↔ (others.headD .pastEnd).line ≤ two.line + 1))
      (hrest : AllMatch rest others) : AllMatch (one :: rest) (two :: others)

structure Cursor.Matches (one two : Cursor) : Prop where
  rest : Token.AllMatch one.rest two.rest
  executable : one.executable = two.executable
  codeSeen : one.codeSeen = two.codeSeen
  report : one.report.unlined = two.report.unlined

namespace Token

variable {one two : Token}

theorem kind_eq_of_unlined (htokens : one.unlined = two.unlined) : one.kind = two.kind := by
  have hkind : one.unlined.kind = two.unlined.kind := by rw [htokens]
  exact hkind

theorem describe_eq_of_unlined (htokens : one.unlined = two.unlined) :
    one.describe = two.describe := by
  have hdescribe : one.unlined.describe = two.unlined.describe := by rw [htokens]
  exact hdescribe

theorem AllMatch.of_lines {first second : List Token}
    (htokens : first.map unlined = second.map unlined)
    (hlines : ∀ index < first.length, (first.getD index .pastEnd).kind = .lineBreak →
      ((first.getD (index + 1) .pastEnd).line ≤ (first.getD index .pastEnd).line + 1 ↔
        (second.getD (index + 1) .pastEnd).line ≤ (second.getD index .pastEnd).line + 1)) :
    AllMatch first second := by
  induction first generalizing second with
  | nil =>
      cases second with
      | nil => exact .nil
      | cons two others => cases htokens
  | cons one rest ih =>
      cases second with
      | nil => cases htokens
      | cons two others =>
          obtain ⟨htoken, hrest⟩ := List.cons.inj htokens
          refine .cons htoken (fun hbreak => ?_) (ih hrest fun index hindex => ?_)
          · have hfirst := hlines 0 (Nat.succ_pos _) hbreak
            rw [List.getD_cons_succ, List.getD_cons_succ, List.getD_cons_zero, List.getD_cons_zero,
              ← List.headD_eq_getD, ← List.headD_eq_getD] at hfirst
            exact hfirst
          · exact hlines (index + 1) (Nat.succ_lt_succ hindex)

theorem AllMatch.headD {tokens others : List Token} (hmatch : AllMatch tokens others) :
    (tokens.headD .pastEnd).unlined = (others.headD .pastEnd).unlined := by
  cases hmatch with
  | nil => rfl
  | cons htoken _ _ => exact htoken

theorem AllMatch.length_eq {tokens others : List Token} (hmatch : AllMatch tokens others) :
    tokens.length = others.length := by
  induction hmatch with
  | nil => rfl
  | cons _ _ _ ih => rw [List.length_cons, List.length_cons, ih]

theorem AllMatch.tail {tokens others : List Token} (hmatch : AllMatch tokens others) :
    AllMatch tokens.tail others.tail := by
  cases hmatch with
  | nil => exact .nil
  | cons _ _ hrest => exact hrest

theorem AllMatch.dropWhile {tokens others : List Token} (hmatch : AllMatch tokens others)
    (skips : Kind → Bool) :
    AllMatch (tokens.dropWhile fun token => skips token.kind)
      (others.dropWhile fun token => skips token.kind) := by
  induction hmatch with
  | nil => exact .nil
  | @cons one two _ _ htoken hbreak hrest ih =>
      have hkind := kind_eq_of_unlined htoken
      rw [List.dropWhile_cons, List.dropWhile_cons, hkind]
      by_cases hskips : skips two.kind = true
      · rw [if_pos hskips, if_pos hskips]
        exact ih
      · rw [if_neg hskips, if_neg hskips]
        exact .cons htoken hbreak hrest

end Token

namespace Cursor

variable {one two : Cursor}

theorem Matches.head (hmatches : one.Matches two) : one.head.unlined = two.head.unlined :=
  hmatches.rest.headD

theorem Matches.kind (hmatches : one.Matches two) : one.head.kind = two.head.kind :=
  Token.kind_eq_of_unlined hmatches.head

theorem Matches.atEnd (hmatches : one.Matches two) : one.atEnd = two.atEnd := by
  rw [Cursor.atEnd, Cursor.atEnd, hmatches.kind]

theorem Matches.sees (hmatches : one.Matches two) (kind : Kind) :
    one.sees kind = two.sees kind := by
  rw [Cursor.sees, Cursor.sees, hmatches.kind]

theorem Matches.seesPair (hmatches : one.Matches two) (first second : Kind) :
    one.seesPair first second = two.seesPair first second := by
  unfold Cursor.seesPair
  have hrest := hmatches.rest
  generalize one.rest = tokens at hrest
  generalize two.rest = others at hrest
  cases hrest with
  | nil => rfl
  | cons hfirst _ hrest =>
      cases hrest with
      | nil => rfl
      | cons hsecond _ _ =>
          dsimp only
          rw [Token.kind_eq_of_unlined hfirst, Token.kind_eq_of_unlined hsecond]

theorem Matches.goTo_tail (hmatches : one.Matches two) :
    ({ one with rest := one.rest.tail } : Cursor).Matches { two with rest := two.rest.tail } :=
  ⟨hmatches.rest.tail, hmatches.executable, hmatches.codeSeen, hmatches.report⟩

theorem Matches.advance (hmatches : one.Matches two) : one.advance.Matches two.advance := by
  unfold Cursor.advance
  rw [hmatches.atEnd]
  by_cases hend : two.atEnd = true
  · rw [if_pos hend, if_pos hend]
    exact hmatches
  · rw [if_neg hend, if_neg hend]
    exact hmatches.goTo_tail

theorem Matches.addError (hmatches : one.Matches two) {error other : SyntaxError}
    (herror : error.unlined = other.unlined) :
    (one.addError error).Matches (two.addError other) := by
  refine ⟨hmatches.rest, hmatches.executable, hmatches.codeSeen, ?_⟩
  have hentries := congrArg Report.entries hmatches.report
  simp only [Report.unlined] at hentries
  simp only [Cursor.addError, Report.unlined, Report.entries_add, List.map_append, hentries,
    List.map_cons, List.map_nil, Report.Entry.unlined, herror]

theorem Matches.resume (hmatches : one.Matches two) (start : Nat) :
    (one.resume start).Matches (two.resume start) := by
  have hskip : ∀ {one two : Cursor}, one.Matches two →
      ({ one with rest := one.rest.dropWhile fun token => !token.kind.resumes } : Cursor).Matches
        { two with rest := two.rest.dropWhile fun token => !token.kind.resumes } := by
    intro one two hmatches
    exact ⟨hmatches.rest.dropWhile fun kind => !kind.resumes, hmatches.executable,
      hmatches.codeSeen, hmatches.report⟩
  unfold Cursor.resume
  rw [hmatches.rest.length_eq]
  by_cases hstart : two.rest.length = start
  · rw [if_pos hstart, if_pos hstart]
    exact hskip hmatches.advance
  · rw [if_neg hstart, if_neg hstart]
    exact hskip hmatches

theorem Matches.hasStaticError (hmatches : one.Matches two) :
    one.report.hasStaticError = two.report.hasStaticError := by
  have hstatic : ∀ report : Report, report.unlined.hasStaticError = report.hasStaticError := by
    intro report
    rw [Report.hasStaticError, Report.hasStaticError, Report.unlined, List.any_map]
    congr 1
    funext entry
    cases entry <;> rfl
  rw [← hstatic, hmatches.report, hstatic]

/-- Both cursors stand on a token, and the tokens are these. -/
def MatchAt (first second : Token) (one two : Cursor) : Prop :=
  one.Matches two ∧ one.head = first ∧ two.head = second

/-- Both cursors stand behind a token. After a line-break symbol they agree on whether an operand
follows. -/
def MatchAfter (first second : Token) (one two : Cursor) : Prop :=
  one.Matches two ∧ (first.kind = .lineBreak → one.seesOperand first = two.seesOperand second)

theorem MatchAt.advance {first second : Token} (hmatch : MatchAt first second one two) :
    MatchAfter first second one.advance two.advance := by
  obtain ⟨hmatches, rfl, rfl⟩ := hmatch
  refine ⟨hmatches.advance, fun hbreak => ?_⟩
  have hnotEnd : one.head.kind ≠ .endOfInput := by
    rw [hbreak]
    decide
  obtain ⟨rest, hrest, hadvance⟩ := rest_eq_cons hnotEnd
  rw [hmatches.kind] at hnotEnd
  obtain ⟨others, hothers, hadvanceOther⟩ := rest_eq_cons hnotEnd
  have hall := hmatches.rest
  rw [hrest, hothers] at hall
  cases hall with
  | cons htoken hline hall =>
      have hhead : (one.goTo rest).head = rest.headD .pastEnd := rfl
      have hheadOther : (two.goTo others).head = others.headD .pastEnd := rfl
      rw [hadvance, hadvanceOther, seesOperand, seesOperand, hhead, hheadOther,
        decide_eq_decide.mpr (hline hbreak), Token.kind_eq_of_unlined hall.headD]

end Cursor

/-! ### Readings that agree -/

namespace Reading

variable {α β γ ζ : Type} {before : Cursor → Cursor → Prop} {erase : α → γ} {other : β → ζ}

/-- From matching cursors, the readings have the same outcome up to lines. -/
def Agree (before : Cursor → Cursor → Prop) (erase : α → γ) (first second : Reading α) : Prop :=
  InStep before Cursor.Matches (fun one two => one.unlined = two.unlined)
    (fun one two => erase one = erase two) first second

theorem Agree.weaken {stronger : Cursor → Cursor → Prop} {first second : Reading α}
    (hagree : Agree before erase first second)
    (hbefore : ∀ one two, stronger one two → before one two) :
    Agree stronger erase first second :=
  fun one two hstronger => hagree one two (hbefore one two hstronger)

theorem agree_pure {one two : α} (hresults : erase one = erase two) :
    Agree Cursor.Matches erase (pure one) (pure two) := inStep_pure hresults

theorem agree_bind {first second : Reading α} {next after : α → Reading β}
    (hfirst : Agree before erase first second)
    (hnext : ∀ one two, erase one = erase two →
      Agree Cursor.Matches other (next one) (after two)) :
    Agree before other (first >>= next) (second >>= after) :=
  inStep_bind hfirst hnext

theorem agree_ite {condition alternative : Prop} [Decidable condition] [Decidable alternative]
    (hsame : condition ↔ alternative) {first second one two : Reading α}
    (hfirst : condition → Agree before erase first second)
    (hone : ¬condition → Agree before erase one two) :
    Agree before erase (if condition then first else one) (if alternative then second else two) :=
  inStep_ite hsame hfirst hone

theorem agree_get_bind {next after : Cursor → Reading α}
    (hnext : ∀ one two, before one two → Agree before erase (next one) (after two)) :
    Agree before erase (get >>= next) (get >>= after) :=
  fun one two hbefore => hnext one two hbefore one two hbefore

/-- What reads on at a token knows that the cursors stand on it. -/
theorem agree_head_bind {next after : Token → Reading α}
    (hnext : ∀ one two, one.unlined = two.unlined →
      Agree (Cursor.MatchAt one two) erase (next one) (after two)) :
    Agree Cursor.Matches erase (head >>= next) (head >>= after) :=
  fun one two hmatches => hnext one.head two.head hmatches.head one two ⟨hmatches, rfl, rfl⟩

theorem agree_advance_bind {first second : Token} {next after : Unit → Reading α}
    (hnext : Agree (Cursor.MatchAfter first second) erase (next ()) (after ())) :
    Agree (Cursor.MatchAt first second) erase (advance >>= next) (advance >>= after) :=
  fun one two hmatch => hnext one.advance two.advance hmatch.advance

theorem Agree.at {first second : Token} {one two : Reading α}
    (hagree : Agree Cursor.Matches erase one two) :
    Agree (Cursor.MatchAt first second) erase one two :=
  hagree.weaken fun _ _ hmatch => hmatch.1

theorem Agree.after {first second : Token} {one two : Reading α}
    (hagree : Agree Cursor.Matches erase one two) :
    Agree (Cursor.MatchAfter first second) erase one two :=
  hagree.weaken fun _ _ hmatch => hmatch.1

theorem agree_fail {cause : Token → SyntaxCause}
    (hcause : ∀ one two : Token, one.unlined = two.unlined → cause one = cause two) :
    Agree Cursor.Matches erase (fail cause) (fail cause) := by
  intro one two hmatches
  rw [run_fail, run_fail]
  exact .error (congrArg (Located.mk · 0) (hcause _ _ hmatches.head)) hmatches

theorem agree_expect (kind : Kind) (message : String) :
    Agree Cursor.Matches Token.unlined (expect kind message) (expect kind message) := by
  intro one two hmatches
  rw [run_expect, run_expect, hmatches.kind, Token.describe_eq_of_unlined hmatches.head]
  by_cases hkind : two.head.kind = kind
  · rw [if_pos hkind, if_pos hkind]
    exact .ok hmatches.head hmatches.advance
  · rw [if_neg hkind, if_neg hkind]
    exact .error rfl hmatches

theorem agree_accept (kind : Kind) : Agree Cursor.Matches id (accept kind) (accept kind) := by
  intro one two hmatches
  rw [run_accept, run_accept, hmatches.kind]
  by_cases hkind : two.head.kind = kind
  · rw [if_pos hkind, if_pos hkind]
    exact .ok rfl hmatches.advance
  · rw [if_neg hkind, if_neg hkind]
    exact .ok rfl hmatches

theorem agree_advance : Agree Cursor.Matches id advance advance :=
  fun _ _ hmatches => .ok rfl hmatches.advance

theorem agree_report (cause : SyntaxCause) (line other : Nat) :
    Agree Cursor.Matches id (report cause line) (report cause other) := by
  intro one two hmatches
  rw [run_report, run_report]
  exact .ok rfl (hmatches.addError rfl)

theorem agree_separated {item : Reading α} (hitem : Agree Cursor.Matches erase item item)
    (bound : Nat) :
    Agree Cursor.Matches (List.map erase) (separated item bound) (separated item bound) := by
  induction bound with
  | zero => exact agree_bind hitem fun _ _ hfirst => agree_pure (congrArg (fun one => [one]) hfirst)
  | succ bound ih =>
      refine agree_bind hitem fun one two hfirst => ?_
      refine agree_bind (agree_accept .comma) fun found other hfound => ?_
      obtain rfl : found = other := hfound
      refine agree_ite .rfl (fun _ => ?_) fun _ => ?_
      · exact agree_bind ih fun _ _ hrest => agree_pure (congrArg₂ List.cons hfirst hrest)
      · exact agree_pure (congrArg (fun one => [one]) hfirst)

end Reading

end BeginCode
