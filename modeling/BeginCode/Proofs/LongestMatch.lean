import BeginCode.Proofs.DecimalRounding
import BeginCode.Proofs.Integers
import BeginCode.Proofs.Patterns
import Mathlib.Data.List.TakeWhile

/-!
# Longest match

At every position the scanner takes the longest text that a pattern matches, as a keyword rather
than as an identifier of the same spelling. It rejects one character exactly if no pattern matches a
text there. An opening quote, apostrophe or bracket is read on by its own rules. Digits stand for an
integer, unless it is too large, and digits with a point for the nearest double.
-/

namespace BeginCode

open BeginCode.Token (Kind Lexeme)

namespace Source

/-! ### Values of numbers -/

/-- A run of digits is an integer up to the largest one of 64 bits, and is rejected beyond it. -/
def runPiece (digits : List Char) (line : Nat) : Piece :=
  if Number.ofDigits digits ≤ 2 ^ 63 - 1 then
    .literal .integer digits line (.integer (.ofNat (Number.ofDigits digits)))
  else .reject digits (.invalidNumber (String.ofList digits)) line

/-- The value of digits with a point among them: all the digits as one number, divided by ten for
each digit after the point, and rounded to the nearest double. -/
def pointValue (text : List Char) : Float :=
  Float.ofScientific (Number.ofDigits (text.filter Number.isDigit)) true
    (text.dropWhile Number.isDigit).tail.length

theorem readInt64?_digits {digits : List Char} (hdigits : digits ∈ Pattern.digits.language) :
    Number.readInt64? digits =
      if Number.ofDigits digits ≤ 2 ^ 63 - 1 then some (.ofNat (Number.ofDigits digits))
      else none := by
  obtain ⟨hsome, hall⟩ := Pattern.mem_digits.mp hdigits
  have hsign : Number.splitSign digits = (false, digits) :=
    Number.splitSign_of_isDigit fun c hmem => hall c (List.mem_of_mem_head? hmem)
  have hfits : Number.FitsInt64 (Number.ofDigits digits) ↔
      Number.ofDigits digits ≤ 2 ^ 63 - 1 := by
    rw [Number.fitsInt64_iff]
    omega
  rw [Number.readInt64?_of_splitSign hsign hsome hall, if_neg Bool.false_ne_true, Number.int64?,
    Int64.ofInt_eq_ofNat]
  exact if_congr hfits rfl rfl

theorem integerPiece_eq_runPiece {digits : List Char} (hdigits : digits ∈ Pattern.digits.language)
    (line : Nat) : integerPiece digits line = runPiece digits line := by
  rw [integerPiece, readInt64?_digits hdigits, runPiece]
  by_cases hvalue : Number.ofDigits digits ≤ 2 ^ 63 - 1
  · rw [if_pos hvalue, if_pos hvalue]
  · rw [if_neg hvalue, if_neg hvalue]

/-- A point after digits ends their run. -/
theorem run_before_point {whole : List Char} (hwhole : ∀ c ∈ whole, Number.isDigit c = true)
    (others : List Char) :
    (whole ++ '.' :: others).takeWhile Number.isDigit = whole ∧
      (whole ++ '.' :: others).dropWhile Number.isDigit = '.' :: others := by
  have hpoint : ¬Number.isDigit '.' = true := by decide
  rw [List.takeWhile_append_of_pos hwhole, List.dropWhile_append_of_pos hwhole,
    List.takeWhile_cons_of_neg hpoint, List.dropWhile_cons_of_neg hpoint, List.append_nil]
  exact ⟨rfl, rfl⟩

theorem floatPiece_eq_literal {whole fraction : List Char}
    (hwhole : whole ∈ Pattern.digits.language) (hfraction : fraction ∈ Pattern.digits.language)
    (line : Nat) :
    floatPiece whole fraction line = .literal .float (whole ++ '.' :: fraction) line
      (.float (pointValue (whole ++ '.' :: fraction))) := by
  obtain ⟨-, hwhole⟩ := Pattern.mem_digits.mp hwhole
  obtain ⟨hsome, hfraction⟩ := Pattern.mem_digits.mp hfraction
  have hfilter : (whole ++ '.' :: fraction).filter Number.isDigit = whole ++ fraction := by
    rw [List.filter_append, List.filter_cons_of_neg (by decide), List.filter_eq_self.mpr hwhole,
      List.filter_eq_self.mpr hfraction]
  have hnegative : -(fraction.length : Int) < 0 := by
    have hlength := List.length_pos_of_ne_nil hsome
    omega
  rw [floatPiece, Number.Decimal.magnitude_eq_ofScientific, decide_eq_true hnegative,
    Int.natAbs_neg, Int.natAbs_natCast, pointValue, hfilter, (run_before_point hwhole fraction).2,
    List.tail_cons]

/-! ### Matches at a position -/

/-- The longest text at the front of the source that a pattern matches, and a kind that it is a text
of. A kind that is not an identifier is preferred. -/
structure Longest (source : List Char) (kind : Kind) (text rest : List Char) : Prop where
  split : source = text ++ rest
  nonempty : text ≠ []
  matched : kind.Matches text
  longest : ∀ {other : Kind} {found : List Char}, found <+: source → other.Matches found →
    found.length ≤ text.length
  preferred : ∀ {other : Kind}, other.Matches text → other = kind ∨ other = .identifier

/-- No pattern matches a text at the front of the source. -/
def Unmatched (source : List Char) : Prop :=
  ∀ (kind : Kind) (text : List Char), text ≠ [] → text <+: source → ¬kind.Matches text

/-- What a text of a kind stands for. -/
def taken (line : Nat) (kind : Kind) (text rest : List Char) : Step :=
  match kind with
  | .newLine => ⟨[.skipped text], line + 1, rest⟩
  | .comment | .ignored => ⟨[.skipped text], line, rest⟩
  | .lineBreak => ⟨[.plain .lineBreak text line], line + 1, rest⟩
  | .doubleQuote => quoted text [] line line rest
  | .apostrophe => character line rest
  | .leftBracket => bracket line rest
  | .integer => ⟨[runPiece text line], line, rest⟩
  | .float => ⟨[.literal .float text line (.float (pointValue text))], line, rest⟩
  | kind => ⟨[.plain kind text line], line, rest⟩

/-- Whether a text of the kind is a token as it is. -/
def isPlain : Kind → Bool
  | .newLine | .comment | .ignored | .lineBreak | .doubleQuote | .apostrophe => false
  | .leftBracket | .integer | .float => false
  | _ => true

theorem taken_of_isPlain {kind : Kind} (hplain : isPlain kind = true) (line : Nat)
    (text rest : List Char) :
    taken line kind text rest = ⟨[.plain kind text line], line, rest⟩ := by
  cases kind <;> first | rfl | cases hplain

/-- The character is rejected. -/
def stray (line : Nat) (c : Char) (rest : List Char) : Step :=
  ⟨[.reject [c] (.unexpectedCharacter (String.singleton c)) line], line, rest⟩

/-- A step that takes the longest match, or rejects a character where nothing matches. -/
inductive Recognised (line : Nat) : List Char → Step → Prop where
  | matched {source : List Char} {kind : Kind} {text rest : List Char}
      (hlongest : Longest source kind text rest) :
      Recognised line source (taken line kind text rest)
  | stray {c : Char} {rest : List Char} (hnone : Unmatched (c :: rest)) :
      Recognised line (c :: rest) (stray line c rest)

variable {line : Nat} {kind : Kind} {first : Char} {others rest after : List Char}

theorem longest_cons (hrest : others ++ after = rest) (hlexeme : Lexeme kind first others)
    (hlongest : ∀ {other found}, found <+: rest → Lexeme other first found →
      found.length ≤ others.length)
    (hpreferred : ∀ {other}, Lexeme other first others → other = kind ∨ other = .identifier) :
    Longest (first :: rest) kind (first :: others) after := by
  refine ⟨congrArg (first :: ·) hrest.symm, List.cons_ne_nil first others,
    Kind.matches_cons_iff.mpr hlexeme, fun {other found} hfront hmatches => ?_,
    fun hmatches => hpreferred (Kind.matches_cons_iff.mp hmatches)⟩
  cases found with
  | nil => exact Nat.zero_le _
  | cons c found =>
      obtain ⟨rfl, hfound⟩ := List.cons_prefix_cons.mp hfront
      exact Nat.succ_le_succ (hlongest hfound (Kind.matches_cons_iff.mp hmatches))

theorem unmatched_cons (hnone : ∀ {kind found}, found <+: rest → ¬Lexeme kind first found) :
    Unmatched (first :: rest) := by
  intro kind text hsome hfront hmatches
  obtain ⟨c, found, rfl⟩ := List.exists_cons_of_ne_nil hsome
  obtain ⟨rfl, hfound⟩ := List.cons_prefix_cons.mp hfront
  exact hnone hfound (Kind.matches_cons_iff.mp hmatches)

theorem length_le_takeWhile {p : Char → Bool} {found : List Char} (hfront : found <+: rest)
    (hall : ∀ c ∈ found, p c = true) : found.length ≤ (rest.takeWhile p).length := by
  obtain ⟨others, rfl⟩ := hfront
  rw [List.takeWhile_append_of_pos hall, List.length_append]
  exact Nat.le_add_right _ _

/-- A run of characters of one class, where nothing else begins with its first character. -/
theorem longest_run {p : Char → Bool}
    (hlexeme : Lexeme kind first (rest.takeWhile p))
    (hall : ∀ {other found}, Lexeme other first found → ∀ c ∈ found, p c = true)
    (hpreferred : ∀ {other}, Lexeme other first (rest.takeWhile p) →
      other = kind ∨ other = .identifier) :
    Longest (first :: rest) kind (first :: rest.takeWhile p) (rest.dropWhile p) :=
  longest_cons List.takeWhile_append_dropWhile hlexeme
    (fun hfront hfound => length_le_takeWhile hfront (hall hfound)) hpreferred

/-! ### Steps -/

theorem recognised_comment : Recognised line ('#' :: rest) (comment line rest) := by
  have hline {found : List Char} (hnot : '\n' ∉ found) : ∀ c ∈ found, decide (c ≠ '\n') = true := by
    intro c hmem
    exact decide_eq_true fun heq => hnot (heq ▸ hmem)
  refine .matched (longest_run (.comment fun hmem => ?_) ?_ ?_)
  · exact absurd (List.mem_takeWhile_imp hmem) (by decide)
  · exact fun hfound => hline hfound.of_hash.2
  · exact fun hother => .inl hother.of_hash.1

theorem recognised_blanks (hfirst : Token.separates first = true) :
    Recognised line (first :: rest) (blanks line first rest) := by
  refine .matched (longest_run (.ignored hfirst fun c hmem => ?_) ?_ ?_)
  · exact List.mem_takeWhile_imp hmem
  · exact fun hfound => (hfound.of_separates hfirst).2
  · exact fun hother => .inl (hother.of_separates hfirst).1

theorem lexeme_ofWord (hfirst : Token.startsWord first = true)
    (hothers : ∀ c ∈ others, Token.continuesWord c = true) :
    Lexeme (.ofWord (String.ofList (first :: others))) first others := by
  rcases Kind.ofWord_eq_or_mem (String.ofList (first :: others)) with hword | hword
  · rw [hword]
    exact .identifier hfirst hothers
  · exact .fixed (Kind.keywords_subset _ hword)

theorem isPlain_ofWord (spelling : String) : isPlain (.ofWord spelling) = true := by
  have hkeywords : ∀ entry ∈ Kind.keywords, isPlain entry.2 = true := by decide
  rcases Kind.ofWord_eq_or_mem spelling with hword | hword
  · rw [hword]
    rfl
  · exact hkeywords _ hword

theorem recognised_word (hfirst : Token.startsWord first = true) :
    Recognised line (first :: rest) (word line first rest) := by
  have hothers : ∀ c ∈ rest.takeWhile Token.continuesWord, Token.continuesWord c = true :=
    fun c hmem => List.mem_takeWhile_imp hmem
  have hlongest := longest_run (lexeme_ofWord hfirst hothers)
    (fun hfound => (hfound.of_word hfirst).1) fun hother => (hother.of_word hfirst).2
  rw [word, ← taken_of_isPlain (isPlain_ofWord _)]
  exact .matched hlongest

/-! Numbers -/

theorem point_not_mem_digits {text : List Char} (hdigits : ∀ c ∈ text, Number.isDigit c = true) :
    '.' ∉ text := fun hmem => absurd (hdigits '.' hmem) (by decide)

/-- Digits without a point and a digit after them. -/
theorem longest_integer (hfirst : Number.isDigit first = true)
    (hpoint : ∀ {others : List Char}, rest.dropWhile Number.isDigit = '.' :: others →
      others.takeWhile Number.isDigit = []) :
    Longest (first :: rest) .integer (first :: rest.takeWhile Number.isDigit)
      (rest.dropWhile Number.isDigit) := by
  have hdigits : ∀ c ∈ rest.takeWhile Number.isDigit, Number.isDigit c = true :=
    fun c hmem => List.mem_takeWhile_imp hmem
  refine longest_cons List.takeWhile_append_dropWhile (.integer hfirst hdigits) ?_ ?_
  · intro other found hfront hfound
    obtain ⟨-, hfound⟩ | ⟨-, whole, fraction, rfl, hsome, hwhole, hfraction⟩ :=
      hfound.of_digit hfirst
    · exact length_le_takeWhile hfront hfound
    · obtain ⟨more, rfl⟩ := hfront
      rw [List.append_assoc, List.cons_append] at hpoint
      have hnone := hpoint (run_before_point hwhole _).2
      rw [List.takeWhile_append_of_pos hfraction] at hnone
      exact absurd (List.append_eq_nil_iff.mp hnone).1 hsome
  · intro other hother
    obtain ⟨rfl, -⟩ | ⟨-, whole, fraction, hsplit, -⟩ := hother.of_digit hfirst
    · exact .inl rfl
    · have hmem : '.' ∈ whole ++ '.' :: fraction := by simp
      exact absurd (hsplit ▸ hmem) (point_not_mem_digits hdigits)

/-- Digits, a point and digits. -/
theorem longest_float (hfirst : Number.isDigit first = true)
    (hrest : rest.dropWhile Number.isDigit = '.' :: others)
    (hsome : others.takeWhile Number.isDigit ≠ []) :
    Longest (first :: rest) .float
      (first :: (rest.takeWhile Number.isDigit ++ '.' :: others.takeWhile Number.isDigit))
      (others.dropWhile Number.isDigit) := by
  have hdigits (text : List Char) : ∀ c ∈ text.takeWhile Number.isDigit, Number.isDigit c = true :=
    fun c hmem => List.mem_takeWhile_imp hmem
  refine longest_cons ?_ (.float hfirst (hdigits rest) hsome (hdigits others)) ?_ ?_
  · rw [List.append_assoc, List.cons_append, List.takeWhile_append_dropWhile, ← hrest,
      List.takeWhile_append_dropWhile]
  · intro other found hfront hfound
    rw [List.length_append, List.length_cons]
    obtain ⟨-, hfound⟩ | ⟨-, whole, fraction, rfl, -, hwhole, hfraction⟩ := hfound.of_digit hfirst
    · have hle := length_le_takeWhile hfront hfound
      omega
    · obtain ⟨more, rfl⟩ := hfront
      rw [List.append_assoc, List.cons_append] at hrest ⊢
      obtain ⟨hbefore, hafter⟩ := run_before_point hwhole (fraction ++ more)
      rw [hafter] at hrest
      obtain rfl := (List.cons.inj hrest).2
      have hle := length_le_takeWhile (List.prefix_append fraction more) hfraction
      rw [hbefore, List.length_append, List.length_cons]
      omega
  · intro other hother
    obtain ⟨-, hall⟩ | ⟨rfl, -⟩ := hother.of_digit hfirst
    · exact absurd (by simp) (point_not_mem_digits hall)
    · exact .inl rfl

theorem recognised_number (hfirst : Number.isDigit first = true) :
    Recognised line (first :: rest) (number line first rest) := by
  have hdigits (text : List Char) : ∀ c ∈ text.takeWhile Number.isDigit, Number.isDigit c = true :=
    fun c hmem => List.mem_takeWhile_imp hmem
  have hwhole : first :: rest.takeWhile Number.isDigit ∈ Pattern.digits.language :=
    Pattern.mem_digits.mpr
      ⟨List.cons_ne_nil _ _, List.forall_mem_cons.mpr ⟨hfirst, hdigits rest⟩⟩
  unfold number
  dsimp only
  rw [integerPiece_eq_runPiece hwhole]
  split
  · rename_i others hrest
    split
    · rename_i hnone
      rw [← hrest]
      refine .matched (longest_integer hfirst fun hother => ?_)
      obtain rfl := (List.cons.inj (hrest.symm.trans hother)).2
      exact List.isEmpty_iff.mp hnone
    · rename_i hsome
      have hsome := mt List.isEmpty_iff.mpr hsome
      have hfraction : others.takeWhile Number.isDigit ∈ Pattern.digits.language :=
        Pattern.mem_digits.mpr ⟨hsome, hdigits others⟩
      rw [floatPiece_eq_literal hwhole hfraction]
      exact .matched (longest_float hfirst hrest hsome)
  · rename_i hother
    exact .matched (longest_integer hfirst fun hrest => absurd hrest (hother _))

/-! Symbols -/

/-- The first character belongs to no class of a regular expression. -/
def IsSymbol (first : Char) : Prop :=
  Token.startsWord first = false ∧ Number.isDigit first = false ∧
    Token.separates first = false ∧ first ≠ '#'

theorem IsSymbol.lexeme_iff (hfirst : IsSymbol first) :
    Lexeme kind first others ↔ Kind.ofSymbols? (first :: others) = some kind :=
  Token.lexeme_symbol_iff hfirst.1 hfirst.2.1 hfirst.2.2.1 hfirst.2.2.2

theorem length_le_one_of_symbols (hkind : Kind.ofSymbols? (first :: others) = some kind) :
    others.length ≤ 1 := by
  unfold Kind.ofSymbols? at hkind
  split at hkind <;> simp_all

theorem longest_pair (hfirst : IsSymbol first) {second : Char}
    (hpair : Kind.ofPair? first second = some kind) :
    Longest (first :: second :: rest) kind [first, second] rest := by
  have hlexeme : Lexeme kind first [second] := hfirst.lexeme_iff.mpr hpair
  refine longest_cons rfl hlexeme (fun _ hfound => ?_) fun hother => ?_
  · exact length_le_one_of_symbols (hfirst.lexeme_iff.mp hfound)
  · have hsame := (hfirst.lexeme_iff.mp hother).symm.trans hpair
    exact .inl (Option.some.inj hsame)

/-- No symbol of two characters begins here. -/
def NoPair (first : Char) (rest : List Char) : Prop :=
  ∀ second ∈ rest.head?, Kind.ofPair? first second = none

theorem NoPair.eq_nil (hnone : NoPair first rest) (hfront : others <+: rest)
    (hkind : Kind.ofSymbols? (first :: others) = some kind) : others = [] := by
  cases others with
  | nil => rfl
  | cons second others =>
      have hlength := length_le_one_of_symbols hkind
      obtain rfl : others = [] := List.eq_nil_of_length_eq_zero (by simpa using hlength)
      obtain ⟨more, rfl⟩ := hfront
      have hpair : Kind.ofPair? first second = some kind := hkind
      rw [hnone second rfl] at hpair
      cases hpair

theorem longest_symbol (hfirst : IsSymbol first) (hnone : NoPair first rest)
    (hkind : Kind.ofMark? first = some kind) :
    Longest (first :: rest) kind [first] rest := by
  refine longest_cons rfl (hfirst.lexeme_iff.mpr hkind) (fun hfront hfound => ?_) fun hother => ?_
  · rw [hnone.eq_nil hfront (hfirst.lexeme_iff.mp hfound)]
  · have hsame := (hfirst.lexeme_iff.mp hother).symm.trans hkind
    exact .inl (Option.some.inj hsame)

theorem unmatched_symbol (hfirst : IsSymbol first) (hnone : NoPair first rest)
    (hkind : Kind.ofMark? first = none) : Unmatched (first :: rest) := by
  refine unmatched_cons fun {kind found} hfront hfound => ?_
  have hsome := hfirst.lexeme_iff.mp hfound
  rw [hnone.eq_nil hfront hsome, Kind.ofSymbols?, hkind] at hsome
  cases hsome

theorem isPlain_of_pair {second : Char} (hpair : Kind.ofPair? first second = some kind) :
    isPlain kind = true := by
  unfold Kind.ofPair? at hpair
  split at hpair <;> cases hpair <;> rfl

theorem isPlain_of_symbol (hkind : Kind.ofSymbol? first = some kind) : isPlain kind = true := by
  unfold Kind.ofSymbol? at hkind
  split at hkind <;> cases hkind <;> rfl

/-- One character that is a symbol or is rejected. -/
theorem recognised_symbolPiece (hfirst : IsSymbol first) (hnone : NoPair first rest)
    (hmark : Kind.ofMark? first = Kind.ofSymbol? first) :
    Recognised line (first :: rest) ⟨[symbolPiece first line], line, rest⟩ := by
  rw [symbolPiece]
  cases hkind : Kind.ofSymbol? first with
  | none => exact .stray (unmatched_symbol hfirst hnone (hmark.trans hkind))
  | some kind =>
      dsimp only
      rw [← taken_of_isPlain (isPlain_of_symbol hkind)]
      exact .matched (longest_symbol hfirst hnone (hmark.trans hkind))

theorem recognised_symbol (hfirst : IsSymbol first)
    (hmark : Kind.ofMark? first = Kind.ofSymbol? first) :
    Recognised line (first :: rest) (symbol line first rest) := by
  cases rest with
  | nil => exact recognised_symbolPiece hfirst (by simp [NoPair]) hmark
  | cons second rest =>
      rw [symbol]
      cases hpair : Kind.ofPair? first second with
      | none => exact recognised_symbolPiece hfirst (by simpa [NoPair] using hpair) hmark
      | some kind =>
          dsimp only
          rw [← taken_of_isPlain (isPlain_of_pair hpair)]
          exact .matched (longest_pair hfirst hpair)

theorem ofMark?_eq (hline : first ≠ '\n') (hbreak : first ≠ '$') (hquote : first ≠ '"')
    (hapostrophe : first ≠ '\'') (hbracket : first ≠ '[') :
    Kind.ofMark? first = Kind.ofSymbol? first := by
  unfold Kind.ofMark?
  split
  case h_6 => rfl
  all_goals contradiction

/-- The scanner takes the longest match. -/
theorem recognised_step (line : Nat) (first : Char) (rest : List Char) :
    Recognised line (first :: rest) (step line first rest) := by
  -- a fixed text of one character that is no part of a longer one
  have hmark (c : Char) (kind : Kind) (hclass : IsSymbol c)
      (hpair : ∀ second, Kind.ofPair? c second = none) (hkind : Kind.ofMark? c = some kind) :
      Recognised line (c :: rest) (taken line kind [c] rest) :=
    .matched (longest_symbol hclass (fun second _ => hpair second) hkind)
  unfold step
  by_cases hline : first = '\n'
  · rw [if_pos hline, hline]
    exact hmark '\n' .newLine ⟨rfl, rfl, rfl, by decide⟩ (fun _ => rfl) rfl
  by_cases hbreak : first = '$'
  · rw [if_neg hline, if_pos hbreak, hbreak]
    exact hmark '$' .lineBreak ⟨rfl, rfl, rfl, by decide⟩ (fun _ => rfl) rfl
  by_cases hhash : first = '#'
  · rw [if_neg hline, if_neg hbreak, if_pos hhash, hhash]
    exact recognised_comment
  rw [if_neg hline, if_neg hbreak, if_neg hhash]
  by_cases hquote : first = '"'
  · rw [if_pos hquote, hquote]
    exact hmark '"' .doubleQuote ⟨rfl, rfl, rfl, by decide⟩ (fun _ => rfl) rfl
  by_cases hapostrophe : first = '\''
  · rw [if_neg hquote, if_pos hapostrophe, hapostrophe]
    exact hmark '\'' .apostrophe ⟨rfl, rfl, rfl, by decide⟩ (fun _ => rfl) rfl
  by_cases hbracket : first = '['
  · rw [if_neg hquote, if_neg hapostrophe, if_pos hbracket, hbracket]
    exact hmark '[' .leftBracket ⟨rfl, rfl, rfl, by decide⟩ (fun _ => rfl) rfl
  rw [if_neg hquote, if_neg hapostrophe, if_neg hbracket]
  by_cases hblank : Token.separates first = true
  · rw [if_pos hblank]
    exact recognised_blanks hblank
  by_cases hdigit : Number.isDigit first = true
  · rw [if_neg hblank, if_pos hdigit]
    exact recognised_number hdigit
  by_cases hword : Token.startsWord first = true
  · rw [if_neg hblank, if_neg hdigit, if_pos hword]
    exact recognised_word hword
  rw [if_neg hblank, if_neg hdigit, if_neg hword]
  have hclass : IsSymbol first :=
    ⟨Bool.eq_false_iff.mpr hword, Bool.eq_false_iff.mpr hdigit, Bool.eq_false_iff.mpr hblank, hhash⟩
  exact recognised_symbol hclass (ofMark?_eq hline hbreak hquote hapostrophe hbracket)

/-! ### One step for each source -/

theorem Longest.unique {source : List Char} {kind other : Kind} {text found rest after : List Char}
    (hlongest : Longest source kind text rest) (hother : Longest source other found after) :
    kind = other ∧ text = found ∧ rest = after := by
  have hfront : text <+: source := ⟨rest, hlongest.split.symm⟩
  have hfound : found <+: source := ⟨after, hother.split.symm⟩
  have hlength : text.length = found.length :=
    Nat.le_antisymm (hother.longest hfront hlongest.matched)
      (hlongest.longest hfound hother.matched)
  obtain rfl := (List.prefix_of_prefix_length_le hfront hfound hlength.le).eq_of_length hlength
  refine ⟨?_, rfl, List.append_cancel_left (hlongest.split.symm.trans hother.split)⟩
  obtain rfl | rfl := hlongest.preferred hother.matched
  · rfl
  · obtain rfl | rfl := hother.preferred hlongest.matched
    · rfl
    · rfl

theorem Longest.not_unmatched {source : List Char} {text : List Char}
    (hlongest : Longest source kind text rest) : ¬Unmatched source :=
  fun hnone => hnone kind text hlongest.nonempty ⟨rest, hlongest.split.symm⟩ hlongest.matched

theorem Recognised.unique {source : List Char} {found other : Step}
    (hfound : Recognised line source found) (hother : Recognised line source other) :
    found = other := by
  cases hfound with
  | matched hlongest =>
      cases hother with
      | matched hlongest' =>
          obtain ⟨rfl, rfl, rfl⟩ := hlongest.unique hlongest'
          rfl
      | stray hnone => exact absurd hnone hlongest.not_unmatched
  | stray hnone =>
      cases hother with
      | matched hlongest => exact absurd hnone hlongest.not_unmatched
      | stray _ => rfl

theorem step_eq_iff {found : Step} :
    step line first rest = found ↔ Recognised line (first :: rest) found := by
  constructor
  · rintro rfl
    exact recognised_step line first rest
  · exact (recognised_step line first rest).unique

end Source

/-! ### Rejected characters -/

/-- Whether the piece is a character that begins no token. -/
def Piece.isStray : Piece → Bool
  | .rejected _ ⟨.unexpectedCharacter _, _⟩ => true
  | _ => false

namespace Source

theorem isStray_quoted (lead content : List Char) (start line : Nat) (rest : List Char) :
    (quoted lead content start line rest).pieces.any Piece.isStray = false := by
  fun_induction quoted lead content start line rest with
  | case1 => rfl
  | case2 lead content start line rest =>
      simp only [lastSegment]
      split
      · rfl
      · split <;> rfl
  | case3 lead content start line rest ih =>
      have hsegment : (segment lead content.reverse start).any Piece.isStray = false := by
        unfold segment
        split <;> rfl
      simp only [Step.prepend, List.any_append, ih, hsegment]
      rfl
  | case4 lead content start line rest ih => exact ih
  | case5 lead content start line c rest _ _ _ ih => exact ih

theorem isStray_taken (line : Nat) (kind : Kind) (text rest : List Char) :
    (taken line kind text rest).pieces.any Piece.isStray = false := by
  cases kind with
  | doubleQuote => exact isStray_quoted text [] line line rest
  | apostrophe =>
      simp only [taken, character]
      split
      · split <;> rfl
      · rfl
  | leftBracket =>
      simp only [taken]
      unfold bracket
      split
      · split <;> rfl
      · rfl
      · rfl
  | integer =>
      simp only [taken, runPiece]
      split <;> rfl
  | _ => rfl

/-- A character is rejected exactly where no pattern matches. -/
theorem any_isStray_iff :
    (step line first rest).pieces.any Piece.isStray = true ↔ Unmatched (first :: rest) := by
  have hstep := recognised_step line first rest
  generalize step line first rest = found at hstep
  cases hstep with
  | matched hlongest =>
      rw [isStray_taken]
      exact ⟨fun hfalse => absurd hfalse Bool.false_ne_true,
        fun hnone => absurd hnone hlongest.not_unmatched⟩
  | stray hnone => exact ⟨fun _ => hnone, fun _ => rfl⟩

/-! ### Whole sources -/

/-- A source that begins on a line is cut into pieces by longest matches, up to its last line. -/
inductive Scans : Nat → List Char → List Piece → Nat → Prop where
  | done {line : Nat} : Scans line [] [] line
  | next {line last : Nat} {source : List Char} {found : Step} {pieces : List Piece}
      (hfound : Recognised line source found) (hrest : Scans found.line found.rest pieces last) :
      Scans line source (found.pieces ++ pieces) last

theorem scans_pieces (line : Nat) (source : List Char) :
    Scans line source (pieces line source).1 (pieces line source).2 := by
  fun_induction pieces line source with
  | case1 line => exact .done
  | case2 line first rest found after ih => exact .next (recognised_step line first rest) ih

theorem Recognised.exists_cons {source : List Char} {found : Step}
    (hfound : Recognised line source found) : ∃ first rest, source = first :: rest := by
  cases hfound with
  | matched hlongest =>
      obtain ⟨first, others, rfl⟩ := List.exists_cons_of_ne_nil hlongest.nonempty
      exact ⟨first, _, hlongest.split⟩
  | stray _ => exact ⟨_, _, rfl⟩

theorem Scans.pieces_eq {last : Nat} {source : List Char} {found : List Piece}
    (hscans : Scans line source found last) : pieces line source = (found, last) := by
  induction hscans with
  | done => rw [pieces]
  | next hfound _ ih =>
      obtain ⟨first, rest, rfl⟩ := hfound.exists_cons
      rw [pieces, step_eq_iff.mpr hfound, ih]

end Source

/-- A scan cuts its source into longest matches. At every position, whatever comes before and after
it, the step takes the longest match, and it rejects a character exactly if there is no match. -/
theorem scan_longest_match (source : String) :
    (∀ result : Scan, scan source = result ↔
      Source.Scans 1 source.toList result.pieces result.lastLine) ∧
    ∀ (line : Nat) (first : Char) (rest : List Char),
      (∀ found, Source.step line first rest = found ↔
        Source.Recognised line (first :: rest) found) ∧
      (Source.step line first rest = Source.stray line first rest ↔
        Source.Unmatched (first :: rest)) ∧
      ((Source.step line first rest).pieces.any Piece.isStray = true ↔
        Source.Unmatched (first :: rest)) := by
  refine ⟨fun result => ⟨?_, fun hscans => ?_⟩, fun line first rest => ⟨fun found => ?_, ?_, ?_⟩⟩
  · rintro rfl
    exact Source.scans_pieces 1 source.toList
  · rw [scan, hscans.pieces_eq]
  · exact Source.step_eq_iff
  · refine ⟨fun hstray => ?_, fun hnone => Source.step_eq_iff.mpr (.stray hnone)⟩
    rw [← Source.any_isStray_iff, hstray]
    rfl
  · exact Source.any_isStray_iff

end BeginCode
