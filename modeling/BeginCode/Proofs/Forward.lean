import BeginCode.Program
import Mathlib.Data.List.TakeWhile

/-!
# Readings only move forward

A reading takes tokens from the front, never an end of input, and adds to the report, whether it
succeeds or fails. A reading that ends with the report it began with was therefore silent in each of
its steps, and `Reading.reads_bind` takes it apart into these steps.
-/

namespace BeginCode

/-- The later cursor is reached by consuming tokens and adding to the report. -/
structure Cursor.LeadsTo (cursor later : Cursor) : Prop where
  rest : ∃ used, cursor.rest = used ++ later.rest ∧ ∀ token ∈ used, token.kind ≠ .endOfInput
  report : cursor.report.entries <+: later.report.entries

namespace Cursor

theorem LeadsTo.refl (cursor : Cursor) : cursor.LeadsTo cursor :=
  ⟨⟨[], rfl, by simp⟩, List.prefix_rfl⟩

theorem LeadsTo.trans {first second third : Cursor} (hfirst : first.LeadsTo second)
    (hsecond : second.LeadsTo third) : first.LeadsTo third := by
  obtain ⟨used, hused, hnotEnd⟩ := hfirst.rest
  obtain ⟨more, hmore, hmoreNotEnd⟩ := hsecond.rest
  refine ⟨⟨used ++ more, by rw [hused, hmore, List.append_assoc], ?_⟩,
    hfirst.report.trans hsecond.report⟩
  intro token hmem
  rcases List.mem_append.mp hmem with hmem | hmem
  · exact hnotEnd token hmem
  · exact hmoreNotEnd token hmem

theorem LeadsTo.length_le {cursor later : Cursor} (hleads : cursor.LeadsTo later) :
    later.rest.length ≤ cursor.rest.length := by
  obtain ⟨used, hused, -⟩ := hleads.rest
  rw [hused, List.length_append]
  omega

/-- Between two cursors with the same report, every cursor has that report. -/
theorem LeadsTo.report_eq {first second third : Cursor} (hfirst : first.LeadsTo second)
    (hsecond : second.LeadsTo third) (hsame : third.report = first.report) :
    second.report = first.report := by
  have hback : second.report.entries <+: first.report.entries := hsame ▸ hsecond.report
  have hentries : second.report.entries = first.report.entries :=
    hback.eq_of_length (Nat.le_antisymm hback.length_le hfirst.report.length_le)
  exact congrArg Report.mk hentries

/-- The same position with other tokens left. -/
def goTo (cursor : Cursor) (rest : List Token) : Cursor := { cursor with rest }

@[simp]
theorem rest_goTo (cursor : Cursor) (rest : List Token) : (cursor.goTo rest).rest = rest := rfl

@[simp]
theorem executable_goTo (cursor : Cursor) (rest : List Token) :
    (cursor.goTo rest).executable = cursor.executable := rfl

@[simp]
theorem goTo_goTo (cursor : Cursor) (rest last : List Token) :
    (cursor.goTo rest).goTo last = cursor.goTo last := rfl

theorem head_eq (cursor : Cursor) : cursor.head = cursor.rest.headD .pastEnd := rfl

theorem head_cons {cursor : Cursor} {token : Token} {rest : List Token}
    (hrest : cursor.rest = token :: rest) : cursor.head = token := by
  rw [head_eq, hrest, List.headD_cons]

/-- A cursor that is not at the end stands on a token. -/
theorem rest_eq_cons {cursor : Cursor} (hnotEnd : cursor.head.kind ≠ .endOfInput) :
    ∃ rest, cursor.rest = cursor.head :: rest ∧ cursor.advance = cursor.goTo rest := by
  cases hrest : cursor.rest with
  | nil => simp [head_eq, hrest, Token.pastEnd] at hnotEnd
  | cons token rest =>
      refine ⟨rest, by simp [head_eq, hrest], ?_⟩
      simp [advance, atEnd, hnotEnd, hrest, goTo]

theorem seesPair_eq_true {cursor : Cursor} {first second : Token.Kind} :
    cursor.seesPair first second = true ↔
      ∃ one two rest, cursor.rest = one :: two :: rest ∧ one.kind = first ∧ two.kind = second := by
  unfold seesPair
  split
  · rename_i one two rest hrest
    simp only [Bool.and_eq_true, beq_iff_eq, hrest]
    constructor
    · rintro ⟨hone, htwo⟩
      exact ⟨one, two, rest, rfl, hone, htwo⟩
    · rintro ⟨_, _, _, hpair, hone, htwo⟩
      cases hpair
      exact ⟨hone, htwo⟩
  · rename_i hrest
    simp only [Bool.false_eq_true, false_iff]
    rintro ⟨one, two, rest, hpair, -, -⟩
    exact hrest one two rest hpair

theorem advance_cons {cursor : Cursor} {token : Token} {rest : List Token}
    (hrest : cursor.rest = token :: rest) (hnotEnd : token.kind ≠ .endOfInput) :
    cursor.advance = cursor.goTo rest := by
  simp [advance, atEnd, head_eq, hrest, hnotEnd, goTo]

@[simp]
theorem report_advance (cursor : Cursor) : cursor.advance.report = cursor.report := by
  unfold advance
  split <;> rfl

theorem leadsTo_goTo {cursor : Cursor} {token : Token} {rest : List Token}
    (hrest : cursor.rest = token :: rest) (hnotEnd : token.kind ≠ .endOfInput) :
    cursor.LeadsTo (cursor.goTo rest) :=
  ⟨⟨[token], hrest, by simpa using hnotEnd⟩, List.prefix_rfl⟩

theorem leadsTo_advance (cursor : Cursor) : cursor.LeadsTo cursor.advance := by
  by_cases hend : cursor.head.kind = .endOfInput
  · have hstay : cursor.advance = cursor := by simp [advance, atEnd, hend]
    rw [hstay]
    exact .refl cursor
  · obtain ⟨rest, hrest, hadvance⟩ := rest_eq_cons hend
    rw [hadvance]
    exact leadsTo_goTo hrest hend

theorem leadsTo_addError (cursor : Cursor) (error : SyntaxError) :
    cursor.LeadsTo (cursor.addError error) :=
  ⟨⟨[], rfl, by simp⟩, List.prefix_append _ _⟩

theorem leadsTo_resume (cursor : Cursor) (start : Nat) : cursor.LeadsTo (cursor.resume start) := by
  have hskip (begun : Cursor) : begun.LeadsTo
      { begun with rest := begun.rest.dropWhile fun token => !token.kind.resumes } := by
    refine ⟨⟨begun.rest.takeWhile fun token => !token.kind.resumes,
      List.takeWhile_append_dropWhile.symm, ?_⟩, List.prefix_rfl⟩
    intro token hmem heq
    simpa [heq, Token.Kind.resumes] using List.mem_takeWhile_imp hmem
  unfold resume
  split
  · exact cursor.leadsTo_advance.trans (hskip _)
  · exact hskip cursor

end Cursor

namespace Reading

variable {α β : Type}

/-- Where a reading stops. -/
def final (reading : Reading α) (cursor : Cursor) : Cursor :=
  match reading.run cursor with
  | .ok _ later => later
  | .error _ later => later

theorem final_of_ok {reading : Reading α} {cursor later : Cursor} {result : α}
    (hrun : reading.run cursor = .ok result later) : reading.final cursor = later := by
  simp [final, hrun]

theorem final_of_error {reading : Reading α} {cursor later : Cursor} {error : SyntaxError}
    (hrun : reading.run cursor = .error error later) : reading.final cursor = later := by
  simp [final, hrun]

/-- A reading that moves the cursor forward only, also when it fails. -/
class Forward (reading : Reading α) : Prop where
  leadsTo : ∀ cursor : Cursor, cursor.LeadsTo (reading.final cursor)

instance forward_pure (result : α) : Forward (pure result : Reading α) :=
  ⟨fun cursor => .refl cursor⟩

instance forward_bind (first : Reading α) (next : α → Reading β) [forward : Forward first]
    [∀ result, Forward (next result)] : Forward (first >>= next) := by
  refine ⟨fun cursor => ?_⟩
  have hfirst := forward.leadsTo cursor
  cases hrun : first.run cursor with
  | ok result later =>
      rw [final_of_ok hrun] at hfirst
      have hfinal : (first >>= next).final cursor = (next result).final later := by
        simp only [final, EStateM.run_bind, hrun]
      rw [hfinal]
      exact hfirst.trans (Forward.leadsTo later)
  | error error later =>
      rw [final_of_error hrun] at hfirst
      have hfinal : (first >>= next).final cursor = later := by
        simp only [final, EStateM.run_bind, hrun]
      rw [hfinal]
      exact hfirst

instance forward_ite (condition : Prop) [Decidable condition] (first second : Reading α)
    [Forward first] [Forward second] : Forward (if condition then first else second) := by
  split
  · infer_instance
  · infer_instance

instance forward_get : Forward (get : Reading Cursor) := ⟨fun cursor => .refl cursor⟩

instance forward_head : Forward head := ⟨fun cursor => .refl cursor⟩

instance forward_advance : Forward advance := ⟨Cursor.leadsTo_advance⟩

instance forward_fail (cause : Token → SyntaxCause) : Forward (fail cause : Reading α) :=
  ⟨fun cursor => .refl cursor⟩

instance forward_report (cause : SyntaxCause) (line : Nat) : Forward (report cause line) :=
  ⟨fun cursor => cursor.leadsTo_addError _⟩

instance forward_expect (kind : Token.Kind) (message : String) : Forward (expect kind message) := by
  unfold expect
  infer_instance

instance forward_accept (kind : Token.Kind) : Forward (accept kind) := by
  unfold accept
  infer_instance

instance forward_separated (item : Reading α) [Forward item] (bound : Nat) :
    Forward (separated item bound) := by
  induction bound with
  | zero =>
      unfold separated
      infer_instance
  | succ bound ih =>
      unfold separated
      infer_instance

/-- A reading that succeeds and reports nothing. -/
def Reads (reading : Reading α) (cursor : Cursor) (result : α) (later : Cursor) : Prop :=
  reading.run cursor = .ok result later ∧ later.report = cursor.report

theorem Reads.leadsTo {reading : Reading α} [forward : Forward reading] {cursor later : Cursor}
    {result : α} (hreads : reading.Reads cursor result later) : cursor.LeadsTo later :=
  final_of_ok hreads.1 ▸ forward.leadsTo cursor

/-- A silent reading is the silent reading of its parts. -/
theorem reads_bind {first : Reading α} {next : α → Reading β} [forward : Forward first]
    [forwardNext : ∀ result, Forward (next result)] {cursor later : Cursor} {result : β} :
    (first >>= next).Reads cursor result later ↔
      ∃ found between, first.Reads cursor found between ∧
        (next found).Reads between result later := by
  constructor
  · rintro ⟨hrun, hreport⟩
    rw [EStateM.run_bind] at hrun
    cases hfirst : first.run cursor with
    | error error between => simp [hfirst] at hrun
    | ok found between =>
        simp only [hfirst] at hrun
        have hbefore : cursor.LeadsTo between := final_of_ok hfirst ▸ forward.leadsTo cursor
        have hafter : between.LeadsTo later :=
          final_of_ok hrun ▸ (forwardNext found).leadsTo between
        have hsame := hbefore.report_eq hafter hreport
        exact ⟨found, between, ⟨hfirst, hsame⟩, hrun, hreport.trans hsame.symm⟩
  · rintro ⟨found, between, hfirst, hnext⟩
    refine ⟨?_, hnext.2.trans hfirst.2⟩
    rw [EStateM.run_bind, hfirst.1]
    exact hnext.1

@[simp]
theorem reads_pure {value result : α} {cursor later : Cursor} :
    (pure value : Reading α).Reads cursor result later ↔ result = value ∧ later = cursor := by
  constructor
  · rintro ⟨hrun, -⟩
    cases hrun
    exact ⟨rfl, rfl⟩
  · rintro ⟨rfl, rfl⟩
    exact ⟨rfl, rfl⟩

@[simp]
theorem reads_get_bind {next : Cursor → Reading β} {cursor later : Cursor} {result : β} :
    ((get : Reading Cursor) >>= next).Reads cursor result later ↔
      (next cursor).Reads cursor result later := .rfl

@[simp]
theorem reads_head_bind {next : Token → Reading β} {cursor later : Cursor} {result : β} :
    (head >>= next).Reads cursor result later ↔
      (next cursor.head).Reads cursor result later := .rfl

@[simp]
theorem reads_advance {result : Unit} {cursor later : Cursor} :
    advance.Reads cursor result later ↔ later = cursor.advance := by
  constructor
  · rintro ⟨hrun, -⟩
    cases hrun
    rfl
  · rintro rfl
    exact ⟨rfl, cursor.report_advance⟩

@[simp]
theorem reads_advance_bind {next : Unit → Reading β} {cursor later : Cursor} {result : β} :
    (advance >>= next).Reads cursor result later ↔
      (next ()).Reads cursor.advance result later := by
  unfold Reads
  rw [cursor.report_advance]
  rfl

@[simp]
theorem not_reads_fail {cause : Token → SyntaxCause} {cursor later : Cursor} {result : α} :
    ¬(fail cause : Reading α).Reads cursor result later := by
  rintro ⟨hrun, -⟩
  cases hrun

/-- What is reported stays in the report. -/
@[simp]
theorem not_reads_report {cause : SyntaxCause} {line : Nat} {result : Unit}
    {cursor later : Cursor} : ¬(report cause line).Reads cursor result later := by
  rintro ⟨hrun, hreport⟩
  cases hrun
  simpa [Cursor.addError] using congrArg (List.length ∘ Report.entries) hreport

theorem reads_expect {kind : Token.Kind} (hkind : kind ≠ .endOfInput) {message : String}
    {cursor later : Cursor} {token : Token} :
    (expect kind message).Reads cursor token later ↔
      token.kind = kind ∧ ∃ rest, cursor.rest = token :: rest ∧ later = cursor.goTo rest := by
  unfold Reads
  rw [run_expect]
  split
  · rename_i hhead
    obtain ⟨rest, hrest, hadvance⟩ := Cursor.rest_eq_cons (hhead.symm ▸ hkind)
    rw [hadvance]
    constructor
    · rintro ⟨hrun, -⟩
      cases hrun
      exact ⟨hhead, rest, hrest, rfl⟩
    · rintro ⟨-, others, hothers, rfl⟩
      obtain ⟨hsame, rfl⟩ := List.cons.inj (hrest.symm.trans hothers)
      exact ⟨by rw [hsame], rfl⟩
  · rename_i hhead
    constructor
    · rintro ⟨hrun, -⟩
      cases hrun
    · rintro ⟨hsame, rest, hrest, -⟩
      exact absurd (by simp [Cursor.head_eq, hrest, hsame]) hhead

theorem reads_accept {kind : Token.Kind} (hkind : kind ≠ .endOfInput) {cursor later : Cursor}
    {found : Bool} :
    (accept kind).Reads cursor found later ↔
      (found = true ∧ ∃ token rest, token.kind = kind ∧ cursor.rest = token :: rest ∧
        later = cursor.goTo rest) ∨
      (found = false ∧ cursor.head.kind ≠ kind ∧ later = cursor) := by
  unfold Reads
  rw [run_accept]
  split
  · rename_i hhead
    obtain ⟨rest, hrest, hadvance⟩ := Cursor.rest_eq_cons (hhead.symm ▸ hkind)
    rw [hadvance]
    constructor
    · rintro ⟨hrun, -⟩
      cases hrun
      exact .inl ⟨rfl, cursor.head, rest, hhead, hrest, rfl⟩
    · rintro (⟨rfl, token, others, -, hothers, rfl⟩ | ⟨-, hother, -⟩)
      · obtain ⟨-, rfl⟩ := List.cons.inj (hrest.symm.trans hothers)
        exact ⟨rfl, rfl⟩
      · exact absurd hhead hother
  · rename_i hhead
    constructor
    · rintro ⟨hrun, -⟩
      cases hrun
      exact .inr ⟨rfl, hhead, rfl⟩
    · rintro (⟨-, token, rest, hsame, hrest, -⟩ | ⟨rfl, -, rfl⟩)
      · exact absurd (by simp [Cursor.head_eq, hrest, hsame]) hhead
      · exact ⟨rfl, rfl⟩

/-! ### Readings that follow a grammar -/

/-- From this cursor, a reading yields exactly what the grammar has at the front of the tokens, and
moves on to the tokens that are left after it. -/
structure Follows (reading : Reading α) (cursor : Cursor)
    (grammar : List Token → α → List Token → Prop) : Prop where
  reads_iff {result : α} {later : Cursor} : reading.Reads cursor result later ↔
    ∃ rest, grammar cursor.rest result rest ∧ later = cursor.goTo rest

theorem Follows.of_iff {reading : Reading α} {cursor : Cursor}
    {grammar other : List Token → α → List Token → Prop} (hfollows : reading.Follows cursor grammar)
    (hiff : ∀ result rest, grammar cursor.rest result rest ↔ other cursor.rest result rest) :
    reading.Follows cursor other := by
  refine ⟨fun {result later} => ?_⟩
  rw [hfollows.reads_iff]
  simp only [hiff]

theorem follows_bind {first : Reading α} {next : α → Reading β} [Forward first]
    [∀ result, Forward (next result)] {cursor : Cursor}
    {grammar : List Token → α → List Token → Prop}
    {others : α → List Token → β → List Token → Prop} (hfirst : first.Follows cursor grammar)
    (hnext : ∀ found rest, grammar cursor.rest found rest →
      (next found).Follows (cursor.goTo rest) (others found)) :
    (first >>= next).Follows cursor fun tokens result rest =>
      ∃ found middle, grammar tokens found middle ∧ others found middle result rest := by
  refine ⟨fun {result later} => ?_⟩
  rw [reads_bind]
  constructor
  · rintro ⟨found, between, hread, hreads⟩
    obtain ⟨middle, hfound, rfl⟩ := hfirst.reads_iff.mp hread
    obtain ⟨rest, hresult, rfl⟩ := (hnext found middle hfound).reads_iff.mp hreads
    exact ⟨rest, ⟨found, middle, hfound, hresult⟩, rfl⟩
  · rintro ⟨rest, ⟨found, middle, hfound, hresult⟩, rfl⟩
    exact ⟨found, cursor.goTo middle, hfirst.reads_iff.mpr ⟨middle, hfound, rfl⟩,
      (hnext found middle hfound).reads_iff.mpr ⟨rest, hresult, rfl⟩⟩

theorem follows_pure {value : α} {cursor : Cursor} :
    (pure value : Reading α).Follows cursor fun tokens result rest =>
      result = value ∧ rest = tokens := by
  refine ⟨fun {result later} => ?_⟩
  rw [reads_pure]
  constructor
  · rintro ⟨rfl, rfl⟩
    exact ⟨_, ⟨rfl, rfl⟩, rfl⟩
  · rintro ⟨rest, ⟨rfl, rfl⟩, rfl⟩
    exact ⟨rfl, rfl⟩

theorem follows_get_bind {next : Cursor → Reading β} {cursor : Cursor}
    {grammar : List Token → β → List Token → Prop} (hnext : (next cursor).Follows cursor grammar) :
    ((get : Reading Cursor) >>= next).Follows cursor grammar :=
  ⟨reads_get_bind.trans hnext.reads_iff⟩

theorem follows_head_bind {next : Token → Reading β} {cursor : Cursor}
    {grammar : List Token → β → List Token → Prop}
    (hnext : (next cursor.head).Follows cursor grammar) :
    (head >>= next).Follows cursor grammar :=
  ⟨reads_head_bind.trans hnext.reads_iff⟩

theorem follows_advance_bind {next : Unit → Reading β} {cursor : Cursor} {token : Token}
    {middle : List Token} {grammar : List Token → β → List Token → Prop}
    (hmiddle : cursor.rest = token :: middle) (htoken : token.kind ≠ .endOfInput)
    (hnext : (next ()).Follows (cursor.goTo middle) grammar) :
    (advance >>= next).Follows cursor fun tokens result rest =>
      grammar tokens.tail result rest := by
  refine ⟨fun {result later} => ?_⟩
  rw [reads_advance_bind, Cursor.advance_cons hmiddle htoken, hnext.reads_iff, hmiddle]
  rfl

theorem follows_fail {cause : Token → SyntaxCause} {cursor : Cursor} :
    (fail cause : Reading α).Follows cursor fun _ _ _ => False := by
  refine ⟨fun {result later} => ?_⟩
  simp

theorem follows_expect {kind : Token.Kind} (hkind : kind ≠ .endOfInput) {message : String}
    {cursor : Cursor} :
    (expect kind message).Follows cursor fun tokens token rest =>
      tokens = token :: rest ∧ token.kind = kind := by
  refine ⟨fun {token later} => ?_⟩
  rw [reads_expect hkind]
  constructor
  · rintro ⟨htoken, rest, hrest, rfl⟩
    exact ⟨rest, ⟨hrest, htoken⟩, rfl⟩
  · rintro ⟨rest, ⟨hrest, htoken⟩, rfl⟩
    exact ⟨htoken, rest, hrest, rfl⟩

/-- Taking a token of a kind if there is one, and then reading on either way. -/
theorem follows_accept {kind : Token.Kind} (hkind : kind ≠ .endOfInput) {taken other : Reading α}
    [Forward taken] [Forward other] {cursor : Cursor}
    {grammar : Token → List Token → α → List Token → Prop}
    {others : List Token → α → List Token → Prop}
    (htaken : ∀ token rest, cursor.rest = token :: rest → token.kind = kind →
      taken.Follows (cursor.goTo rest) (grammar token))
    (hother : cursor.head.kind ≠ kind → other.Follows cursor others) :
    (do if ← accept kind then taken else other : Reading α).Follows cursor
      fun tokens result rest =>
        (∃ token middle, tokens = token :: middle ∧ token.kind = kind ∧
          grammar token middle result rest) ∨
        ((tokens.headD .pastEnd).kind ≠ kind ∧ others tokens result rest) := by
  refine ⟨fun {result later} => ?_⟩
  rw [reads_bind]
  simp only [reads_accept hkind]
  constructor
  · rintro ⟨found, between,
      ⟨rfl, token, middle, htoken, hrest, rfl⟩ | ⟨rfl, hhead, rfl⟩, hreads⟩
    · obtain ⟨rest, hresult, rfl⟩ := (htaken token middle hrest htoken).reads_iff.mp hreads
      exact ⟨rest, .inl ⟨token, middle, hrest, htoken, hresult⟩, rfl⟩
    · obtain ⟨rest, hresult, rfl⟩ := (hother hhead).reads_iff.mp hreads
      exact ⟨rest, .inr ⟨hhead, hresult⟩, rfl⟩
  · rintro ⟨rest, ⟨token, middle, hrest, htoken, hresult⟩ | ⟨hhead, hresult⟩, rfl⟩
    · exact ⟨true, _, .inl ⟨rfl, token, middle, htoken, hrest, rfl⟩,
        (htaken token middle hrest htoken).reads_iff.mpr ⟨rest, hresult, rfl⟩⟩
    · exact ⟨false, cursor, .inr ⟨rfl, hhead, rfl⟩,
        (hother hhead).reads_iff.mpr ⟨rest, hresult, rfl⟩⟩

end Reading

end BeginCode
