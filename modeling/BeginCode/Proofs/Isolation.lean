import BeginCode.Proofs.Seam
import BeginCode.Proofs.Termination
import Mathlib.Algebra.Order.BigOperators.Group.List
import Mathlib.Algebra.Order.Group.Nat

/-!
# Errors stay where they are

A segment is a `DISPLAY` or `SCAN` and whatever follows it up to the next token at which reading
resumes. Read in a program block together with others, every segment yields the statements and the
errors that it yields in a block of its own, however malformed it is. Only an error at the token
after the segment depends on the context: it describes that token.
-/

namespace BeginCode

open BeginCode.Token (Kind)
open BeginCode.Reading

variable {first second : Side} {shared : List Token} {token : Token} {one two : Cursor}

/-! ### Items do not look beyond the seam -/

namespace Stmt

theorem local_startExecutable : Local first second startExecutable := by
  rintro one two ⟨shared, habreast⟩
  exact .ok rfl ⟨shared, habreast.continues, habreast.one_rest, habreast.two_rest,
    habreast.codeSeen, habreast.reports⟩

theorem run_item_of_statement (inner : Reading (List Stmt)) (bound : Nat) {cursor : Cursor}
    (htype : cursor.head.kind.valueType? = none) (hbegin : cursor.head.kind ≠ .kwBegin) :
    (item inner bound).run cursor =
      (statement inner bound >>= fun found => pure [found]).run cursor := by
  have hpair : ¬cursor.seesPair .kwBegin .kwCode = true := by
    rw [Cursor.seesPair_eq_true]
    rintro ⟨one, two, rest, hrest, hone, -⟩
    exact hbegin (Cursor.head_cons hrest ▸ hone)
  rw [item, EStateM.run_bind, EStateM.run_get]
  dsimp only
  rw [htype]
  dsimp only
  rw [if_neg hpair]

variable (inner : Reading (List Stmt)) (bound : Nat)

/-- At a token that begins neither a declaration nor a block, an item is a statement. -/
theorem localFrom_item {before : Cursor → Cursor → Prop}
    (hheads : ∀ {one two}, before one two → one.head = token ∧ two.head = token)
    (htype : token.kind.valueType? = none) (hbegin : token.kind ≠ .kwBegin)
    (hstatement : LocalFrom first second before (statement inner bound) (statement inner bound)) :
    LocalFrom first second before (item inner bound) (item inner bound) := by
  intro one two hbefore
  obtain ⟨hone, htwo⟩ := hheads hbefore
  rw [run_item_of_statement inner bound (hone ▸ htype) (hone ▸ hbegin),
    run_item_of_statement inner bound (htwo ▸ htype) (htwo ▸ hbegin)]
  exact localFrom_bind hstatement (fun _ => local_pure _) one two hbefore

/-- What is left of a segment is read as an expression. -/
theorem localFrom_item_shared (hcontinues : token.kind.resumes = false) :
    LocalFrom first second (Cursor.AbreastWith first second (token :: shared))
      (item inner bound) (item inner bound) := by
  have htype : token.kind.valueType? = none := by
    cases hkind : token.kind <;> rw [hkind] at hcontinues <;> first | rfl | cases hcontinues
  refine localFrom_item inner bound (fun habreast => habreast.heads) htype
    (Kind.ne_of_resumes rfl hcontinues).symm (localFrom_head_bind ?_)
  split
  case h_6 =>
    refine Local.from (local_bind local_startExecutable fun _ => ?_) _
    exact local_bind (Expr.local_readWithin bound) fun _ => local_pure _
  all_goals
    rename_i hkind
    rw [hkind] at hcontinues
    cases hcontinues

/-- Both cursors stand on a token, after which they are abreast. -/
def AbreastAfter (first second : Side) (token : Token) (shared : List Token) (one two : Cursor) :
    Prop :=
  (one.head = token ∧ two.head = token) ∧
    Cursor.AbreastWith first second shared one.advance two.advance

theorem localFrom_item_keyword (hkind : token.kind = .kwDisplay ∨ token.kind = .kwScan) :
    LocalFrom first second (AbreastAfter first second token shared) (item inner bound)
      (item inner bound) := by
  refine localFrom_item inner bound (fun habreast => habreast.1) ?_ ?_ ?_
  · rcases hkind with hkind | hkind <;> rw [hkind] <;> rfl
  · rcases hkind with hkind | hkind <;> rw [hkind] <;> decide
  · rintro one two ⟨⟨hone, htwo⟩, habreast⟩
    rw [statement, EStateM.run_bind, EStateM.run_bind, run_head, run_head]
    dsimp only
    rw [hone, htwo]
    have hafter {reading : Reading Stmt} (hreading : Local first second reading) :
        Alike (Cursor.Abreast first second) (SyntaxError.SameSave first.next second.next) Eq
          (reading.run one.advance) (reading.run two.advance) :=
      hreading _ _ ⟨shared, habreast⟩
    rcases hkind with hkind | hkind
    · rw [hkind]
      refine hafter (local_bind (local_expect rfl _) fun _ => ?_)
      refine local_bind local_startExecutable fun _ => ?_
      exact local_bind (Expr.local_readWithin bound) fun _ => local_pure _
    · rw [hkind]
      refine hafter (local_bind (local_expect rfl _) fun _ => ?_)
      refine local_bind local_startExecutable fun _ => ?_
      exact local_bind (local_separated (local_expect rfl _) bound) fun _ => local_pure _

end Stmt

/-! ### Recovery stops at the seam -/

theorem Cursor.AbreastWith.lengths (habreast : AbreastWith first second shared one two) :
    one.rest.length = shared.length + first.rest.length + 1 ∧
      two.rest.length = shared.length + second.rest.length + 1 := by
  rw [habreast.one_rest, habreast.two_rest]
  simp only [List.length_append, List.length_cons]
  omega

theorem Cursor.AbreastWith.resume (habreast : AbreastWith first second shared one two) {begun : Nat}
    (hbegun : begun ≠ 0) :
    AbreastWith first second [] (one.resume (begun + first.rest.length + 1))
      (two.resume (begun + second.rest.length + 1)) := by
  have hskip {one two : Cursor} {shared : List Token}
      (habreast : AbreastWith first second shared one two) : AbreastWith first second []
        { one with rest := one.rest.dropWhile fun token => !token.kind.resumes }
        { two with rest := two.rest.dropWhile fun token => !token.kind.resumes } := by
    have hdrop (side : Side) : (shared ++ side.next :: side.rest).dropWhile
        (fun token => !token.kind.resumes) = side.next :: side.rest := by
      rw [List.dropWhile_append_of_pos, List.dropWhile_cons_of_neg]
      · simp [side.resumes]
      · intro token htoken
        simp [habreast.continues token htoken]
    refine ⟨by simp, ?_, ?_, habreast.codeSeen, habreast.reports⟩
    · rw [habreast.one_rest, hdrop, List.nil_append]
    · rw [habreast.two_rest, hdrop, List.nil_append]
  obtain ⟨hone, htwo⟩ := habreast.lengths
  unfold Cursor.resume
  by_cases hnone : shared.length = begun
  · rw [if_pos (by omega), if_pos (by omega)]
    cases shared with
    | nil => exact absurd hnone.symm hbegun
    | cons token shared => exact hskip habreast.advance
  · rw [if_neg (by omega), if_neg (by omega)]
    exact hskip habreast

/-- A construct that begins before the seam is read or skipped alike. -/
theorem Stmt.exists_run_recovering_abreast {construct : Reading (List Stmt)} {begun : Nat}
    (hbegun : begun ≠ 0) (hone : one.rest.length = begun + first.rest.length + 1)
    (htwo : two.rest.length = begun + second.rest.length + 1)
    (halike : Alike (Cursor.Abreast first second) (SyntaxError.SameSave first.next second.next) Eq
      (construct.run one) (construct.run two)) :
    ∃ found later after, (recovering construct).run one = .ok found later ∧
      (recovering construct).run two = .ok found after ∧
      Cursor.Abreast first second later after := by
  rw [run_recovering, run_recovering, hone, htwo]
  generalize construct.run one = outcome at halike ⊢
  generalize construct.run two = other at halike ⊢
  cases halike with
  | ok hsame habreast =>
      subst hsame
      exact ⟨_, _, _, rfl, rfl, habreast⟩
  | error hsame habreast =>
      obtain ⟨shared, habreast⟩ := habreast
      exact ⟨[], _, _, rfl, rfl, [], (habreast.addError hsame).resume hbegun⟩

/-! ### Rounds up to the seam -/

/-- Some rounds from one cursor to another, after which others may follow. -/
def Reading.RoundsTo (round : Reading (List Stmt)) (stops : Cursor → Bool) (cursor : Cursor)
    (found : List Stmt) (later : Cursor) : Prop :=
  ∀ {more last}, Rounds round stops later more last →
    Rounds round stops cursor (found ++ more) last

namespace Stmt

variable {closing : Kind} {depth : Nat}

/-- A round of a body that does not end here. -/
theorem roundsTo_next {cursor between later : Cursor} {found others : List Stmt}
    (hend : cursor.head.kind ≠ .kwEnd) (hinput : cursor.head.kind ≠ .endOfInput)
    (hround : (readItem depth).run cursor = .ok found between)
    (hless : between.rest.length < cursor.rest.length)
    (hothers : RoundsTo (readItem depth) (endsBody closing) between others later) :
    RoundsTo (readItem depth) (endsBody closing) cursor (found ++ others) later := by
  intro more last hmore
  obtain ⟨rest, hrest, -⟩ := Cursor.rest_eq_cons hinput
  rw [List.append_assoc]
  exact .next (not_closes hrest hend hinput) hround hless (hothers hmore)

/-- Rounds with the same results lead from both cursors to the seam. -/
def ReachSeam (first second : Side) (closing : Kind) (depth : Nat) (one two : Cursor) : Prop :=
  ∃ found later after, Cursor.AbreastWith first second [] later after ∧
    RoundsTo (readItem depth) (endsBody closing) one found later ∧
    RoundsTo (readItem depth) (endsBody closing) two found after

/-- An item that begins before the seam, and what the round leaves before the seam. -/
theorem reachSeam_next {begun : Nat} (hbegun : begun ≠ 0)
    (hone : one.rest.length = begun + first.rest.length + 1)
    (htwo : two.rest.length = begun + second.rest.length + 1)
    (hheads : one.head = token ∧ two.head = token) (hend : token.kind ≠ .kwEnd)
    (hinput : token.kind ≠ .endOfInput) (honeDepth : one.rest.length ≤ depth + 1)
    (htwoDepth : two.rest.length ≤ depth + 1)
    (halike : Alike (Cursor.Abreast first second) (SyntaxError.SameSave first.next second.next) Eq
      ((item (readItem depth) (depth + 1)).run one) ((item (readItem depth) (depth + 1)).run two))
    (hothers : ∀ {shared later after}, shared.length < begun →
      Cursor.AbreastWith first second shared later after →
      ReachSeam first second closing (depth + 1) later after) :
    ReachSeam first second closing (depth + 1) one two := by
  obtain ⟨hhead, hheadTwo⟩ := hheads
  obtain ⟨found, later, after, hrun, hrunTwo, shared, habreast⟩ :=
    exists_run_recovering_abreast hbegun hone htwo halike
  rw [← readItem] at hrun hrunTwo
  have hless {cursor last : Cursor} (hhead : cursor.head = token)
      (hdepth : cursor.rest.length ≤ depth + 1)
      (hrun : (readItem (depth + 1)).run cursor = .ok found last) :
      last.rest.length < cursor.rest.length := by
    have hbefore : cursor.atEnd = false := by simpa [Cursor.atEnd, hhead] using hinput
    obtain ⟨_, _, hsame, hless⟩ := productive_readItem (depth + 1) cursor hbefore hdepth
    rw [hrun] at hsame
    cases hsame
    exact hless
  have hlater := hless hhead honeDepth hrun
  have hafter := hless hheadTwo htwoDepth hrunTwo
  have hshorter : shared.length < begun := by
    rw [hone, habreast.one_rest, List.length_append, List.length_cons] at hlater
    omega
  obtain ⟨others, last, lastTwo, hseam, hrounds, hroundsTwo⟩ := hothers hshorter habreast
  subst hhead
  exact ⟨found ++ others, last, lastTwo, hseam, roundsTo_next hend hinput hrun hlater hrounds,
    roundsTo_next (hheadTwo ▸ hend) (hheadTwo ▸ hinput) hrunTwo hafter hroundsTwo⟩

/-- What is left of a segment is read in rounds of expressions. -/
theorem reachSeam_of_abreast (habreast : Cursor.AbreastWith first second shared one two)
    (hone : shared.length + first.rest.length ≤ depth)
    (htwo : shared.length + second.rest.length ≤ depth) :
    ReachSeam first second closing (depth + 1) one two := by
  induction hlength : shared.length using Nat.strong_induction_on generalizing shared one two with
  | _ length ih =>
      subst hlength
      cases shared with
      | nil => exact ⟨[], one, two, habreast, id, id⟩
      | cons token shared =>
          have hkind {kind : Kind} (hresumes : kind.resumes = true) : token.kind ≠ kind :=
            (Kind.ne_of_resumes hresumes habreast.continues_head).symm
          have halike := localFrom_item_shared (readItem depth) (depth + 1) habreast.continues_head
            one two habreast
          obtain ⟨hlengthOne, hlengthTwo⟩ := habreast.lengths
          refine reachSeam_next (Nat.succ_ne_zero shared.length) hlengthOne hlengthTwo
            habreast.heads (hkind rfl) (hkind rfl) (by omega) (by omega) halike ?_
          intro shorter later after hshorter hothers
          rw [List.length_cons] at hone htwo ih
          exact ih _ hshorter hothers (by omega) (by omega) rfl

end Stmt

/-! ### Segments -/

/-- A `DISPLAY` or `SCAN` and tokens up to the next one at which reading resumes. -/
structure Segment where
  keyword : Token
  others : List Token
  begins : keyword.kind = .kwDisplay ∨ keyword.kind = .kwScan
  continues : ∀ token ∈ others, token.kind.resumes = false

namespace Segment

def tokens (segment : Segment) : List Token := segment.keyword :: segment.others

theorem resumes_keyword (segment : Segment) : segment.keyword.kind.resumes = true := by
  rcases segment.begins with hkind | hkind <;> rw [hkind] <;> rfl

theorem keyword_ne (segment : Segment) {kind : Kind} (hdisplay : Kind.kwDisplay ≠ kind)
    (hscan : Kind.kwScan ≠ kind) : segment.keyword.kind ≠ kind := by
  rcases segment.begins with hkind | hkind
  · rwa [hkind]
  · rwa [hkind]

theorem reachSeam (segment : Segment) {closing : Kind} {depth : Nat}
    (hone : one.rest = segment.tokens ++ first.next :: first.rest)
    (htwo : two.rest = segment.tokens ++ second.next :: second.rest)
    (hcodeSeen : one.codeSeen = true ∧ two.codeSeen = true)
    (hreport : one.report.entries = first.entries ∧ two.report.entries = second.entries)
    (hdepth : one.rest.length ≤ depth + 1 ∧ two.rest.length ≤ depth + 1) :
    Stmt.ReachSeam first second closing (depth + 1) one two := by
  have hinput : segment.keyword.kind ≠ .endOfInput := segment.keyword_ne (by decide) (by decide)
  have hheads : one.head = segment.keyword ∧ two.head = segment.keyword :=
    ⟨Cursor.head_cons hone, Cursor.head_cons htwo⟩
  have habreast : Cursor.AbreastWith first second segment.others one.advance two.advance := by
    rw [Cursor.advance_cons hone hinput, Cursor.advance_cons htwo hinput]
    exact ⟨segment.continues, rfl, rfl, hcodeSeen, [], [],
      hreport.1.trans (List.append_nil _).symm, hreport.2.trans (List.append_nil _).symm, .nil⟩
  have halike := Stmt.localFrom_item_keyword (Stmt.readItem depth) (depth + 1) segment.begins
    one two ⟨hheads, habreast⟩
  have hlengthOne : one.rest.length = segment.others.length + 1 + first.rest.length + 1 := by
    rw [hone, tokens, List.length_append, List.length_cons, List.length_cons]
    omega
  have hlengthTwo : two.rest.length = segment.others.length + 1 + second.rest.length + 1 := by
    rw [htwo, tokens, List.length_append, List.length_cons, List.length_cons]
    omega
  refine Stmt.reachSeam_next (Nat.succ_ne_zero segment.others.length) hlengthOne hlengthTwo hheads
    (segment.keyword_ne (by decide) (by decide)) hinput hdepth.1 hdepth.2 halike ?_
  intro shared later after hshorter hothers
  exact Stmt.reachSeam_of_abreast hothers (by omega) (by omega)

/-- The first token of the segments, or the one after them if there are none. -/
def following (ending : Token) : List Segment → Token
  | [] => ending
  | segment :: _ => segment.keyword

theorem resumes_following {ending : Token} (hending : ending.kind.resumes = true)
    (segments : List Segment) : (following ending segments).kind.resumes = true := by
  cases segments with
  | nil => exact hending
  | cons segment segments => exact segment.resumes_keyword

theorem exists_flatMap_append (ending : Token) (rest : List Token) (segments : List Segment) :
    ∃ others, segments.flatMap tokens ++ ending :: rest = following ending segments :: others := by
  cases segments with
  | nil => exact ⟨rest, rfl⟩
  | cons segment segments => exact ⟨_, rfl⟩

end Segment

/-! ### Program blocks -/

theorem Stmt.run_body_of_items {inner : Reading (List Stmt)} {closing : Kind} {bound : Nat}
    {cursor last : Cursor} {found : List Stmt} {ending closed : Token} {rest : List Token}
    (hitems : (items inner closing bound).run cursor = .ok found last)
    (hlast : last.rest = ending :: closed :: rest) (hending : ending.kind = .kwEnd)
    (hclosed : closed.kind = closing) (hclosing : closing ≠ .endOfInput) (message : String) :
    (body inner closing message bound).run cursor = .ok found (last.goTo rest) := by
  have hend : ending.kind ≠ .endOfInput := by
    rw [hending]
    decide
  have hnext : (last.goTo (closed :: rest)).head.kind = closing := hclosed
  rw [body, EStateM.run_bind, hitems]
  dsimp only
  rw [EStateM.run_bind, run_expect, Cursor.head_cons hlast, if_pos hending,
    Cursor.advance_cons hlast hend]
  dsimp only
  rw [EStateM.run_bind, run_expect, if_pos hnext,
    Cursor.advance_cons rfl (hclosed ▸ hclosing : closed.kind ≠ .endOfInput)]
  rfl

/-- The keywords of a program block and what follows it, which is the end of input. -/
structure Frame where
  opening : Token
  opened : Token
  ending : Token
  closed : Token
  rest : List Token
  begins : opening.kind = .kwBegin ∧ opened.kind = .kwCode
  ends : ending.kind = .kwEnd ∧ closed.kind = .kwCode
  finishes : (rest.headD .pastEnd).kind = .endOfInput

namespace Frame

variable (frame : Frame) {depth : Nat} {tokens : List Token} {report : Report} {found : List Stmt}
  {last : Cursor}

/-- The end of the block and of the program. -/
def tail : List Token := frame.ending :: frame.closed :: frame.rest

def around (tokens : List Token) : List Token :=
  frame.opening :: frame.opened :: (tokens ++ frame.tail)

theorem run_topLevel (hdepth : (tokens ++ frame.tail).length ≤ depth)
    (hrounds : Rounds (Stmt.readItem depth) (Stmt.endsBody .kwCode)
      { rest := tokens ++ frame.tail, codeSeen := true, report } found last)
    (hlast : last.rest = frame.tail) :
    (Program.topLevel depth).run { rest := frame.around tokens, report } =
      .ok [.block found frame.opening.line] (last.goTo frame.rest) := by
  have hbegin : Cursor.seesPair { rest := frame.around tokens, report } .kwBegin .kwCode = true :=
    Cursor.seesPair_eq_true.mpr ⟨_, _, _, rfl, frame.begins.1, frame.begins.2⟩
  have hopening : frame.opening.kind ≠ .endOfInput := by rw [frame.begins.1]; decide
  have hopened : frame.opened.kind ≠ .endOfInput := by rw [frame.begins.2]; decide
  have hitems := hrounds.run_repeated hdepth
  rw [← Stmt.items_eq_repeated] at hitems
  rw [Program.topLevel, EStateM.run_bind, EStateM.run_get]
  dsimp only
  rw [if_pos hbegin, Stmt.codeBlock, EStateM.run_bind, EStateM.run_get]
  dsimp only
  rw [EStateM.run_bind, run_advance, Cursor.advance_cons rfl hopening]
  dsimp only
  rw [EStateM.run_bind, run_advance, Cursor.advance_cons rfl hopened, if_neg Bool.false_ne_true]
  have hbody := Stmt.run_body_of_items hitems hlast frame.ends.1 frame.ends.2 (by decide)
    "Expect 'END CODE' after block."
  change (Stmt.body (Stmt.readItem depth) .kwCode _ depth >>= fun found =>
    pure [Stmt.block found frame.opening.line]).run
      { rest := tokens ++ frame.tail, codeSeen := true, report } = _
  rw [EStateM.run_bind, hbody]
  rfl

/-- A program block is parsed as the rounds of its body, with any sufficient bound. -/
theorem parse_around (hdepth : (frame.around tokens).length ≤ depth)
    (hrounds : Rounds (Stmt.readItem depth) (Stmt.endsBody .kwCode)
      { rest := tokens ++ frame.tail, codeSeen := true, report } found last)
    (hlast : last.rest = frame.tail) (hcodeSeen : last.codeSeen = true) :
    Program.parse (frame.around tokens) report =
      ([.block found frame.opening.line], last.report) := by
  let cursor : Cursor := { rest := frame.around tokens, report }
  have hlength : (frame.around tokens).length = (tokens ++ frame.tail).length + 2 := rfl
  have hblock : (Stmt.recovering (Program.topLevel depth)).run cursor =
      .ok [.block found frame.opening.line] (last.goTo frame.rest) := by
    rw [Stmt.run_recovering, frame.run_topLevel (by omega) hrounds hlast]
  have hbefore : cursor.atEnd = false := by
    rw [Cursor.atEnd, Cursor.head_cons rfl, frame.begins.1]
    rfl
  have hfinished : (last.goTo frame.rest).atEnd = true := by
    rw [Cursor.atEnd, Cursor.head_eq, Cursor.rest_goTo, frame.finishes]
    rfl
  have hless : (last.goTo frame.rest).rest.length < cursor.rest.length := by
    change frame.rest.length < (frame.around tokens).length
    rw [hlength, List.length_append, tail, List.length_cons, List.length_cons]
    omega
  have htopLevels : (Program.topLevels cursor.rest.length cursor.rest.length).run cursor =
      .ok [.block found frame.opening.line] (last.goTo frame.rest) := by
    have hall := Rounds.next hbefore hblock hless (.done hfinished)
    rw [Program.sameUpTo_topLevels le_rfl hdepth le_rfl le_rfl cursor le_rfl,
      Program.topLevels_eq_repeated]
    exact hall.run_repeated le_rfl
  have hread := Program.run_read_of_topLevels htopLevels
  rw [show (last.goTo frame.rest).codeSeen = true from hcodeSeen] at hread
  rw [Program.parse, hread]
  rfl

end Frame

namespace Program

/-- The statements and the errors of segments that are read in blocks of their own, one after the
other. Before `ending`, an error at the end of its own block is one at the token that follows. -/
inductive Separately (ending : Token) (alone : Segment → Frame) :
    List Segment → List Stmt → List SyntaxError → Prop where
  | nil : Separately ending alone [] [] []
  | cons {segment : Segment} {segments : List Segment} {found more : List Stmt}
      {own errors others : List SyntaxError}
      (hparse : parse ((alone segment).around segment.tokens) .empty =
        ([.block found (alone segment).opening.line], ⟨own.map .grammatical⟩))
      (hsame : List.Forall₂ (SyntaxError.SameSave (Segment.following ending segments)
        (alone segment).ending) errors own)
      (hmore : Separately ending alone segments more others) :
      Separately ending alone (segment :: segments) (found ++ more) (errors ++ others)

theorem exists_rounds_segments (frame : Frame) (alone : Segment → Frame) {depth : Nat}
    {segments : List Segment} {cursor : Cursor}
    (hrest : cursor.rest = segments.flatMap Segment.tokens ++ frame.tail)
    (hcodeSeen : cursor.codeSeen = true) (hdepth : cursor.rest.length ≤ depth + 1)
    (halone : ∀ segment ∈ segments,
      ((alone segment).around segment.tokens).length ≤ depth + 1) :
    ∃ found errors last,
      Rounds (Stmt.readItem (depth + 1)) (Stmt.endsBody .kwCode) cursor found last ∧
      last.rest = frame.tail ∧ last.codeSeen = true ∧
      last.report.entries = cursor.report.entries ++ errors.map .grammatical ∧
      Separately frame.ending alone segments found errors := by
  have hstops {frame : Frame} {cursor : Cursor} (hrest : cursor.rest = frame.tail) :
      Stmt.endsBody .kwCode cursor = true := by
    have hpair : cursor.seesPair .kwEnd .kwCode = true :=
      Cursor.seesPair_eq_true.mpr ⟨_, _, _, hrest, frame.ends.1, frame.ends.2⟩
    rw [Stmt.endsBody, hpair, Bool.true_or]
  have hresumes (frame : Frame) : frame.ending.kind.resumes = true := by
    rw [frame.ends.1]
    rfl
  induction segments generalizing cursor with
  | nil =>
      exact ⟨[], [], cursor, .done (hstops hrest), hrest, hcodeSeen, (List.append_nil _).symm, .nil⟩
  | cons segment segments ih =>
      obtain ⟨others, hothers⟩ :=
        Segment.exists_flatMap_append frame.ending (frame.closed :: frame.rest) segments
      have hothers : segments.flatMap Segment.tokens ++ frame.tail =
          Segment.following frame.ending segments :: others := hothers
      -- on the one side the other segments, on the other the end of a block for this one alone
      let first : Side := ⟨Segment.following frame.ending segments, others, cursor.report.entries,
        Segment.resumes_following (hresumes frame) segments⟩
      let second : Side := ⟨(alone segment).ending, (alone segment).closed :: (alone segment).rest,
        [], hresumes (alone segment)⟩
      let separate : Cursor := { rest := segment.tokens ++ (alone segment).tail, codeSeen := true }
      have hwhole : cursor.rest = segment.tokens ++ first.next :: first.rest := by
        rw [hrest, List.flatMap_cons, List.append_assoc, hothers]
      have hbounded := halone segment List.mem_cons_self
      have hseparate : separate.rest.length + 2 = ((alone segment).around segment.tokens).length :=
        rfl
      have hreach : Stmt.ReachSeam first second .kwCode (depth + 1) cursor separate :=
        segment.reachSeam hwhole rfl ⟨hcodeSeen, rfl⟩ ⟨rfl, rfl⟩ ⟨hdepth, by omega⟩
      obtain ⟨found, later, after, hseam, hrounds, hroundsAlone⟩ := hreach
      obtain ⟨errors, own, hentries, hown, hsame⟩ := hseam.reports
      have hlater : later.rest = segments.flatMap Segment.tokens ++ frame.tail :=
        hseam.one_rest.trans hothers.symm
      have hshorter : later.rest.length ≤ depth + 1 := by
        rw [hrest, List.flatMap_cons, List.append_assoc, ← hlater, List.length_append] at hdepth
        omega
      obtain ⟨more, moreErrors, last, hmore, hlast, hlastSeen, hreport, hseparately⟩ :=
        ih hlater hseam.codeSeen.1 hshorter fun other hother =>
          halone other (List.mem_cons_of_mem _ hother)
      have hparse : parse ((alone segment).around segment.tokens) .empty =
          ([.block found (alone segment).opening.line], ⟨own.map .grammatical⟩) := by
        have hblock := hroundsAlone (.done (hstops hseam.two_rest))
        rw [List.append_nil] at hblock
        rw [(alone segment).parse_around hbounded hblock hseam.two_rest hseam.codeSeen.2]
        exact congrArg (Prod.mk _) (congrArg Report.mk hown)
      refine ⟨found ++ more, errors ++ moreErrors, last, hrounds hmore, hlast, hlastSeen, ?_,
        .cons hparse hsame hseparately⟩
      rw [hreport, hentries, List.map_append, List.append_assoc]

/-- However malformed its segments are, a program block yields the statements and the errors of all
segments as if each were read in a block of its own. An error stays in its segment, or at the token
after it, and the end of the block is always found. -/
theorem parse_segments (frame : Frame) (alone : Segment → Frame) (segments : List Segment)
    (report : Report) :
    ∃ found errors,
      parse (frame.around (segments.flatMap Segment.tokens)) report =
        ([.block found frame.opening.line], ⟨report.entries ++ errors.map .grammatical⟩) ∧
      Separately frame.ending alone segments found errors := by
  let sizes := segments.map fun segment => ((alone segment).around segment.tokens).length
  let tokens := segments.flatMap Segment.tokens
  have halone : ∀ segment ∈ segments, ((alone segment).around segment.tokens).length ≤
      (frame.around tokens).length + sizes.sum + 1 := by
    intro segment hsegment
    have hle : _ ≤ sizes.sum := List.single_le_sum (fun _ _ => Nat.zero_le _) _
      (List.mem_map_of_mem hsegment)
    omega
  let cursor : Cursor := { rest := tokens ++ frame.tail, codeSeen := true, report }
  have hcursor : cursor.rest = tokens ++ frame.tail := rfl
  have hlength : (frame.around tokens).length = cursor.rest.length + 2 := rfl
  obtain ⟨found, errors, last, hrounds, hlast, hcodeSeen, hreport, hseparately⟩ :=
    exists_rounds_segments frame alone hcursor rfl (by omega) halone
  refine ⟨found, errors, ?_, hseparately⟩
  rw [frame.parse_around (by omega) hrounds hlast hcodeSeen]
  exact congrArg (Prod.mk _) (congrArg Report.mk hreport)

/-- The segments `DISPLAY 1`, `DISPLAY: (2 +` and `SCAN: x = )`. The first lacks a colon, the second
stops short of an operand, and the third has a name and more. -/
def garbled : List Segment :=
  [⟨⟨.kwDisplay, "DISPLAY", 2, none⟩, [⟨.integer, "1", 2, some (.integer 1)⟩], .inl rfl,
      by decide⟩,
    ⟨⟨.kwDisplay, "DISPLAY", 3, none⟩, [⟨.colon, ":", 3, none⟩, ⟨.leftParen, "(", 3, none⟩,
      ⟨.integer, "2", 3, some (.integer 2)⟩, ⟨.plus, "+", 3, none⟩], .inl rfl, by decide⟩,
    ⟨⟨.kwScan, "SCAN", 4, none⟩, [⟨.colon, ":", 4, none⟩, ⟨.identifier, "x", 4, none⟩,
      ⟨.equals, "=", 4, none⟩, ⟨.rightParen, ")", 4, none⟩], .inr rfl, by decide⟩]

/-- A block from line 1 to line 5 with nothing after it. -/
def lines : Frame where
  opening := ⟨.kwBegin, "BEGIN", 1, none⟩
  opened := ⟨.kwCode, "CODE", 1, none⟩
  ending := ⟨.kwEnd, "END", 5, none⟩
  closed := ⟨.kwCode, "CODE", 5, none⟩
  rest := []
  begins := ⟨rfl, rfl⟩
  ends := ⟨rfl, rfl⟩
  finishes := rfl

/-- The only statement that can be read. -/
def salvaged : List Stmt := [.scan [⟨.identifier, "x", 4, none⟩] 4]

/-- The second segment fails at the `SCAN` after it. -/
def complaints : List SyntaxError :=
  [⟨.unexpectedToken "Expect ':' after 'DISPLAY'." "'1'", 2⟩, ⟨.expectedExpression "'SCAN'", 4⟩,
    ⟨.expectedExpression "'='", 4⟩]

theorem parse_segments_garbled :
    parse (lines.around (garbled.flatMap Segment.tokens)) .empty =
        ([.block salvaged 1], ⟨complaints.map .grammatical⟩) ∧
      Separately lines.ending (fun _ => lines) garbled salvaged complaints := by
  have hparse : parse (lines.around (garbled.flatMap Segment.tokens)) .empty =
      ([.block salvaged 1], ⟨complaints.map .grammatical⟩) := rfl
  obtain ⟨found, errors, hfound, hseparately⟩ :=
    parse_segments lines (fun _ => lines) garbled .empty
  obtain ⟨hblock, hreport⟩ := Prod.mk.inj (hparse.symm.trans hfound)
  obtain ⟨rfl, -⟩ := Stmt.block.inj (List.cons.inj hblock).1
  obtain rfl : complaints = errors :=
    List.map_injective_iff.mpr (fun _ _ => Report.Entry.grammatical.inj) (Report.mk.inj hreport)
  exact ⟨hparse, hseparately⟩

end Program

end BeginCode
