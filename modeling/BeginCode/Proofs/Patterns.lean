import BeginCode.Proofs.ScanSteps
import Mathlib.Computability.Language

/-!
# Patterns of tokens

The kinds of tokens that are recognised by their text have fixed texts or a regular expression.
`Token.Lexeme` lists the texts of all of them, and the first character of a text leaves few of them:
those of a word, of a number, of blanks, of a comment, or the fixed texts of symbols.
-/

namespace BeginCode

open BeginCode.Token (Kind)

/-- A regular expression over characters. -/
inductive Pattern where
  | fixed (text : String)
  | oneOf (ranges : List (Char × Char))
  | noneOf (ranges : List (Char × Char))
  | followed (first second : Pattern)
  | many (inner : Pattern)
  deriving DecidableEq, Repr

namespace Pattern

/-- Whether the character lies in one of the ranges. -/
def within (ranges : List (Char × Char)) (c : Char) : Bool :=
  ranges.any fun range => range.1 ≤ c && c ≤ range.2

/-- The texts of one character that satisfies the condition. -/
def single (condition : Char → Prop) : Language Char := {text | ∃ c, condition c ∧ text = [c]}

/-- The texts that the whole of the pattern matches. -/
def language : Pattern → Language Char
  | fixed text => {text.toList}
  | oneOf ranges => single fun c => within ranges c = true
  | noneOf ranges => single fun c => within ranges c = false
  | followed first second => first.language * second.language
  | many inner => KStar.kstar inner.language

/-- The pattern once or more often. -/
def repeated (inner : Pattern) : Pattern := followed inner (many inner)

/-- `[0-9]+` -/
def digits : Pattern := repeated (oneOf [('0', '9')])

/-- `[0-9]+\.[0-9]+` -/
def decimal : Pattern := followed digits (followed (fixed ".") digits)

/-- `[a-zA-Z_][a-zA-Z0-9_]*` -/
def name : Pattern :=
  followed (oneOf [('a', 'z'), ('A', 'Z'), ('_', '_')])
    (many (oneOf [('a', 'z'), ('A', 'Z'), ('0', '9'), ('_', '_')]))

/-- `#[^\n]*` -/
def remark : Pattern := followed (fixed "#") (many (noneOf [('\n', '\n')]))

/-- `[ \t\r\f]+` -/
def blanks : Pattern :=
  repeated (oneOf [(' ', ' '), ('\t', '\t'), ('\r', '\r'), ('\x0c', '\x0c')])

end Pattern

namespace Token.Kind

/-- The kinds with fixed texts. Kinds that begin a literal have the text that opens it. -/
def fixedTexts : List (String × Kind) :=
  [("(", leftParen), (")", rightParen), (",", comma), (":", colon), (";", semicolon), ("-", minus),
    ("+", plus), ("*", star), ("/", slash), ("%", percent), ("&", ampersand), ("=", equals),
    ("==", equalEqual), ("<>", notEqual), ("<", less), ("<=", lessEqual), (">", greater),
    (">=", greaterEqual), ("$", lineBreak), ("'", apostrophe), ("\"", doubleQuote),
    ("[", leftBracket), ("BEGIN", kwBegin), ("END", kwEnd), ("CODE", kwCode), ("IF", kwIf),
    ("if", kwIf), ("ELSE", kwElse), ("else", kwElse), ("WHILE", kwWhile), ("while", kwWhile),
    ("FOR", kwFor), ("for", kwFor), ("DISPLAY", kwDisplay), ("SCAN", kwScan), ("NIL", kwNil),
    ("TRUE", kwTrue), ("FALSE", kwFalse), ("AND", kwAnd), ("OR", kwOr), ("NOT", kwNot),
    ("INT", kwInt), ("CHAR", kwChar), ("BOOL", kwBool), ("FLOAT", kwFloat), ("STRING", kwString),
    ("\n", newLine)]

/-- The kinds with a regular expression. -/
def expressions : List (Pattern × Kind) :=
  [(.decimal, float), (.digits, integer), (.name, identifier), (.remark, comment),
    (.blanks, ignored)]

def patterns : List (Pattern × Kind) :=
  fixedTexts.map (fun entry => (.fixed entry.1, entry.2)) ++ expressions

/-- A pattern of the kind matches the whole text. -/
def Matches (kind : Kind) (text : List Char) : Prop :=
  ∃ pattern, (pattern, kind) ∈ patterns ∧ text ∈ pattern.language

end Token.Kind

/-! ### Texts of patterns -/

namespace Pattern

variable {text : List Char} {ranges : List (Char × Char)}

theorem mem_fixed {fixedText : String} :
    text ∈ (fixed fixedText).language ↔ text = fixedText.toList := .rfl

theorem mem_followed {first second : Pattern} :
    text ∈ (followed first second).language ↔
      ∃ before ∈ first.language, ∃ after ∈ second.language, before ++ after = text :=
  Language.mem_mul

theorem mem_kstar_single {condition : Char → Prop} :
    text ∈ KStar.kstar (single condition) ↔ ∀ c ∈ text, condition c := by
  rw [Language.mem_kstar]
  constructor
  · rintro ⟨parts, rfl, hparts⟩ c hmem
    obtain ⟨part, hpart, hmem⟩ := List.mem_flatten.mp hmem
    obtain ⟨d, hd, rfl⟩ := hparts part hpart
    obtain rfl := List.mem_singleton.mp hmem
    exact hd
  · intro hall
    refine ⟨text.map fun c => [c], ?_, ?_⟩
    · exact (List.flatMap_singleton' text).symm
    · intro part hpart
      obtain ⟨c, hmem, rfl⟩ := List.mem_map.mp hpart
      exact ⟨c, hall c hmem, rfl⟩

theorem mem_many_oneOf :
    text ∈ (many (oneOf ranges)).language ↔ ∀ c ∈ text, within ranges c = true :=
  mem_kstar_single

theorem mem_many_noneOf :
    text ∈ (many (noneOf ranges)).language ↔ ∀ c ∈ text, within ranges c = false :=
  mem_kstar_single

theorem mem_repeated_oneOf :
    text ∈ (repeated (oneOf ranges)).language ↔
      text ≠ [] ∧ ∀ c ∈ text, within ranges c = true := by
  rw [repeated, mem_followed]
  constructor
  · rintro ⟨_, ⟨c, hc, rfl⟩, others, hothers, rfl⟩
    refine ⟨List.cons_ne_nil c others, fun d hmem => ?_⟩
    rcases List.mem_cons.mp hmem with rfl | hmem
    · exact hc
    · exact mem_many_oneOf.mp hothers d hmem
  · rintro ⟨hsome, hall⟩
    obtain ⟨c, others, rfl⟩ := List.exists_cons_of_ne_nil hsome
    refine ⟨[c], ⟨c, hall c List.mem_cons_self, rfl⟩, others, mem_many_oneOf.mpr ?_, rfl⟩
    exact fun d hmem => hall d (List.mem_cons_of_mem c hmem)

/-! The ranges are the classes of characters. -/

theorem within_digits (c : Char) : within [('0', '9')] c = Number.isDigit c := by
  simp [within, Number.isDigit]

theorem within_point {c d : Char} : (c ≤ d && d ≤ c) = (d = c : Bool) := by
  rw [Bool.eq_iff_iff]
  simp only [Bool.and_eq_true, decide_eq_true_eq]
  constructor
  · rintro ⟨hle, hge⟩
    exact Char.le_antisymm hge hle
  · rintro rfl
    exact ⟨Char.le_refl _, Char.le_refl _⟩

theorem within_startsWord (c : Char) :
    within [('a', 'z'), ('A', 'Z'), ('_', '_')] c = Token.startsWord c := by
  simp only [within, List.any_cons, List.any_nil, within_point, Token.startsWord, Bool.or_false,
    Bool.or_assoc]

theorem within_continuesWord (c : Char) :
    within [('a', 'z'), ('A', 'Z'), ('0', '9'), ('_', '_')] c = Token.continuesWord c := by
  simp only [within, List.any_cons, List.any_nil, within_point, Token.continuesWord,
    Token.startsWord, Bool.or_false, Bool.or_assoc]
  rw [Bool.or_comm (decide (c = '_'))]

theorem within_separates (c : Char) :
    within [(' ', ' '), ('\t', '\t'), ('\r', '\r'), ('\x0c', '\x0c')] c = Token.separates c := by
  simp only [within, List.any_cons, List.any_nil, within_point, Token.separates, Bool.or_false,
    Bool.or_assoc]

theorem mem_digits :
    text ∈ digits.language ↔ text ≠ [] ∧ ∀ c ∈ text, Number.isDigit c = true := by
  simp only [digits, mem_repeated_oneOf, within_digits]

theorem mem_decimal :
    text ∈ decimal.language ↔
      ∃ whole ∈ digits.language, ∃ fraction ∈ digits.language,
        whole ++ '.' :: fraction = text := by
  rw [decimal, mem_followed]
  constructor
  · rintro ⟨whole, hwhole, _, ⟨_, rfl, fraction, hfraction, rfl⟩, rfl⟩
    exact ⟨whole, hwhole, fraction, hfraction, rfl⟩
  · rintro ⟨whole, hwhole, fraction, hfraction, rfl⟩
    exact ⟨whole, hwhole, _, ⟨_, rfl, fraction, hfraction, rfl⟩, rfl⟩

theorem mem_name :
    text ∈ name.language ↔ ∃ first others, Token.startsWord first = true ∧
      (∀ c ∈ others, Token.continuesWord c = true) ∧ first :: others = text := by
  rw [name, mem_followed]
  simp only [mem_many_oneOf, within_continuesWord]
  constructor
  · rintro ⟨_, ⟨first, hfirst, rfl⟩, others, hothers, rfl⟩
    exact ⟨first, others, (within_startsWord first).symm.trans hfirst, hothers, rfl⟩
  · rintro ⟨first, others, hfirst, hothers, rfl⟩
    exact ⟨[first], ⟨first, (within_startsWord first).trans hfirst, rfl⟩, others, hothers, rfl⟩

theorem mem_remark : text ∈ remark.language ↔ ∃ others, '\n' ∉ others ∧ '#' :: others = text := by
  have hline (others : List Char) :
      (∀ c ∈ others, within [('\n', '\n')] c = false) ↔ '\n' ∉ others := by
    simp only [within, List.any_cons, List.any_nil, within_point, Bool.or_false,
      decide_eq_false_iff_not]
    exact ⟨fun hall hmem => hall _ hmem rfl, fun hnot c hmem heq => hnot (heq ▸ hmem)⟩
  rw [remark, mem_followed]
  simp only [mem_many_noneOf, hline]
  constructor
  · rintro ⟨_, rfl, others, hothers, rfl⟩
    exact ⟨others, hothers, rfl⟩
  · rintro ⟨others, hothers, rfl⟩
    exact ⟨_, rfl, others, hothers, rfl⟩

theorem mem_blanks :
    text ∈ blanks.language ↔ text ≠ [] ∧ ∀ c ∈ text, Token.separates c = true := by
  simp only [blanks, mem_repeated_oneOf, within_separates]

end Pattern

namespace Token

/-- The texts of a kind by their first character and the others, in terms of the classes of
characters. -/
inductive Lexeme : Kind → Char → List Char → Prop where
  | fixed {kind : Kind} {first : Char} {others : List Char}
      (hfixed : (String.ofList (first :: others), kind) ∈ Kind.fixedTexts) :
      Lexeme kind first others
  | float {first : Char} {whole fraction : List Char} (hfirst : Number.isDigit first = true)
      (hwhole : ∀ c ∈ whole, Number.isDigit c = true) (hsome : fraction ≠ [])
      (hfraction : ∀ c ∈ fraction, Number.isDigit c = true) :
      Lexeme .float first (whole ++ '.' :: fraction)
  | integer {first : Char} {others : List Char} (hfirst : Number.isDigit first = true)
      (hothers : ∀ c ∈ others, Number.isDigit c = true) : Lexeme .integer first others
  | identifier {first : Char} {others : List Char} (hfirst : startsWord first = true)
      (hothers : ∀ c ∈ others, continuesWord c = true) : Lexeme .identifier first others
  | comment {others : List Char} (hline : '\n' ∉ others) : Lexeme .comment '#' others
  | ignored {first : Char} {others : List Char} (hfirst : separates first = true)
      (hothers : ∀ c ∈ others, separates c = true) : Lexeme .ignored first others

theorem Kind.matches_cons_iff {kind : Kind} {first : Char} {others : List Char} :
    kind.Matches (first :: others) ↔ Lexeme kind first others := by
  have hexpression {pattern : Pattern} {text : List Char}
      (hpattern : (pattern, kind) ∈ Kind.expressions) (htext : text ∈ pattern.language) :
      kind.Matches text := ⟨pattern, List.mem_append_right _ hpattern, htext⟩
  have hall {condition : Char → Prop} {first : Char} {others : List Char} :
      (∀ c ∈ first :: others, condition c) ↔ condition first ∧ ∀ c ∈ others, condition c :=
    List.forall_mem_cons
  constructor
  · rintro ⟨pattern, hpattern, htext⟩
    rcases List.mem_append.mp hpattern with hpattern | hpattern
    · obtain ⟨entry, hentry, heq⟩ := List.mem_map.mp hpattern
      cases heq
      rw [Pattern.mem_fixed] at htext
      exact .fixed (by rwa [htext, String.ofList_toList])
    · simp only [Kind.expressions, List.mem_cons, List.not_mem_nil, or_false, Prod.mk.injEq]
        at hpattern
      rcases hpattern with ⟨rfl, rfl⟩ | ⟨rfl, rfl⟩ | ⟨rfl, rfl⟩ | ⟨rfl, rfl⟩ | ⟨rfl, rfl⟩
      · obtain ⟨whole, hwhole, fraction, hfraction, heq⟩ := Pattern.mem_decimal.mp htext
        obtain ⟨hsome, hwhole⟩ := Pattern.mem_digits.mp hwhole
        obtain ⟨digit, whole, rfl⟩ := List.exists_cons_of_ne_nil hsome
        obtain ⟨hsome, hfraction⟩ := Pattern.mem_digits.mp hfraction
        obtain ⟨rfl, rfl⟩ := List.cons.inj heq
        exact .float (hall.mp hwhole).1 (hall.mp hwhole).2 hsome hfraction
      · obtain ⟨hfirst, hothers⟩ := hall.mp (Pattern.mem_digits.mp htext).2
        exact .integer hfirst hothers
      · obtain ⟨initial, rest, hfirst, hothers, heq⟩ := Pattern.mem_name.mp htext
        obtain ⟨rfl, rfl⟩ := List.cons.inj heq
        exact .identifier hfirst hothers
      · obtain ⟨rest, hline, heq⟩ := Pattern.mem_remark.mp htext
        obtain ⟨rfl, rfl⟩ := List.cons.inj heq
        exact .comment hline
      · obtain ⟨hfirst, hothers⟩ := hall.mp (Pattern.mem_blanks.mp htext).2
        exact .ignored hfirst hothers
  · intro hlexeme
    cases hlexeme with
    | fixed hfixed =>
        refine ⟨_, List.mem_append_left _ (List.mem_map_of_mem hfixed), ?_⟩
        exact Pattern.mem_fixed.mpr String.toList_ofList.symm
    | float hfirst hwhole hsome hfraction =>
        refine hexpression (by decide) (Pattern.mem_decimal.mpr ⟨_ :: _, ?_, _, ?_, rfl⟩)
        · exact Pattern.mem_digits.mpr ⟨List.cons_ne_nil _ _, hall.mpr ⟨hfirst, hwhole⟩⟩
        · exact Pattern.mem_digits.mpr ⟨hsome, hfraction⟩
    | integer hfirst hothers =>
        refine hexpression (by decide) (Pattern.mem_digits.mpr ⟨List.cons_ne_nil _ _, ?_⟩)
        exact hall.mpr ⟨hfirst, hothers⟩
    | identifier hfirst hothers =>
        exact hexpression (by decide) (Pattern.mem_name.mpr ⟨_, _, hfirst, hothers, rfl⟩)
    | comment hline => exact hexpression (by decide) (Pattern.mem_remark.mpr ⟨_, hline, rfl⟩)
    | ignored hfirst hothers =>
        refine hexpression (by decide) (Pattern.mem_blanks.mpr ⟨List.cons_ne_nil _ _, ?_⟩)
        exact hall.mpr ⟨hfirst, hothers⟩

/-! ### By the first character -/

theorem isDigit_iff {c : Char} : Number.isDigit c = true ↔ 48 ≤ c.toNat ∧ c.toNat ≤ 57 := by
  simp only [Number.isDigit, Bool.and_eq_true, decide_eq_true_eq]
  rfl

theorem startsWord_iff {c : Char} : startsWord c = true ↔
    (97 ≤ c.toNat ∧ c.toNat ≤ 122) ∨ (65 ≤ c.toNat ∧ c.toNat ≤ 90) ∨ c.toNat = 95 := by
  simp only [startsWord, Bool.or_eq_true, Bool.and_eq_true, decide_eq_true_eq, or_assoc,
    ← Char.toNat_inj]
  rfl

theorem separates_iff {c : Char} : separates c = true ↔
    c.toNat = 32 ∨ c.toNat = 9 ∨ c.toNat = 13 ∨ c.toNat = 12 := by
  simp only [separates, Bool.or_eq_true, decide_eq_true_eq, or_assoc, ← Char.toNat_inj]
  rfl

/-- The fixed texts that begin like a word are the keywords. -/
theorem Kind.fixedTexts_words : ∀ entry ∈ fixedTexts,
    entry.1.toList.head?.any startsWord = true →
      entry.1.toList.all continuesWord = true ∧ ofWord entry.1 = entry.2 := by decide

theorem Kind.keywords_subset : ∀ entry ∈ keywords, entry ∈ fixedTexts := by decide

/-- No fixed text begins like a text of a regular expression other than that of words. -/
theorem Kind.fixedTexts_first : ∀ entry ∈ fixedTexts,
    entry.1.toList.head?.all (fun c => !Number.isDigit c && !separates c && c != '#') = true := by
  decide

/-- The kind of a fixed text of one character. -/
def Kind.ofMark? : Char → Option Kind
  | '\n' => some newLine
  | '$' => some lineBreak
  | '"' => some doubleQuote
  | '\'' => some apostrophe
  | '[' => some leftBracket
  | c => ofSymbol? c

/-- The kind of a fixed text that is not a word. -/
def Kind.ofSymbols? : List Char → Option Kind
  | [c] => ofMark? c
  | [first, second] => ofPair? first second
  | _ => none

theorem Kind.fixedTexts_symbols : ∀ entry ∈ fixedTexts,
    entry.1.toList.head?.any startsWord = false →
      ofSymbols? entry.1.toList = some entry.2 := by decide

theorem Kind.mem_fixedTexts_of_symbols {text : List Char} {kind : Kind}
    (hkind : ofSymbols? text = some kind) : (String.ofList text, kind) ∈ fixedTexts := by
  unfold ofSymbols? at hkind
  split at hkind
  · unfold ofMark? at hkind
    split at hkind
    case h_6 =>
      unfold ofSymbol? at hkind
      split at hkind <;> cases hkind <;> decide
    all_goals cases hkind
    all_goals decide
  · unfold ofPair? at hkind
    split at hkind <;> cases hkind <;> decide
  · cases hkind

section First

variable {kind : Kind} {first : Char} {others : List Char}

/-- A text that begins like a word is a word, and a keyword comes before an identifier. -/
theorem Lexeme.of_word (hlexeme : Lexeme kind first others) (hfirst : startsWord first = true) :
    (∀ c ∈ others, continuesWord c = true) ∧
      (kind = .ofWord (String.ofList (first :: others)) ∨ kind = .identifier) := by
  have hcode := startsWord_iff.mp hfirst
  cases hlexeme with
  | fixed hfixed =>
      obtain ⟨hword, hkind⟩ := Kind.fixedTexts_words _ hfixed (by simp [hfirst])
      rw [String.toList_ofList, List.all_cons, Bool.and_eq_true, List.all_eq_true] at hword
      exact ⟨hword.2, .inl hkind.symm⟩
  | float hdigit _ _ _ =>
      have hdigit := isDigit_iff.mp hdigit
      omega
  | integer hdigit _ =>
      have hdigit := isDigit_iff.mp hdigit
      omega
  | identifier _ hothers => exact ⟨hothers, .inr rfl⟩
  | comment _ => cases hfirst
  | ignored hblank _ =>
      have hblank := separates_iff.mp hblank
      omega

theorem Lexeme.not_fixed
    (hfirst : (Number.isDigit first || separates first || first == '#') = true) :
    (String.ofList (first :: others), kind) ∉ Kind.fixedTexts := by
  intro hfixed
  have hnot := Kind.fixedTexts_first _ hfixed
  rw [String.toList_ofList, List.head?_cons, Option.all_some, Bool.and_eq_true, Bool.and_eq_true]
    at hnot
  obtain ⟨⟨hdigit, hblank⟩, hhash⟩ := hnot
  simp_all

/-- What begins with a digit is a number. -/
theorem Lexeme.of_digit (hlexeme : Lexeme kind first others)
    (hfirst : Number.isDigit first = true) :
    (kind = .integer ∧ ∀ c ∈ others, Number.isDigit c = true) ∨
      (kind = .float ∧ ∃ whole fraction, others = whole ++ '.' :: fraction ∧ fraction ≠ [] ∧
        (∀ c ∈ whole, Number.isDigit c = true) ∧ ∀ c ∈ fraction, Number.isDigit c = true) := by
  have hcode := isDigit_iff.mp hfirst
  cases hlexeme with
  | fixed hfixed => exact absurd hfixed (not_fixed (by simp [hfirst]))
  | float _ hwhole hsome hfraction => exact .inr ⟨rfl, _, _, rfl, hsome, hwhole, hfraction⟩
  | integer _ hothers => exact .inl ⟨rfl, hothers⟩
  | identifier hword _ =>
      have hword := startsWord_iff.mp hword
      omega
  | comment _ => cases hfirst
  | ignored hblank _ =>
      have hblank := separates_iff.mp hblank
      omega

theorem Lexeme.of_separates (hlexeme : Lexeme kind first others)
    (hfirst : separates first = true) : kind = .ignored ∧ ∀ c ∈ others, separates c = true := by
  have hcode := separates_iff.mp hfirst
  cases hlexeme with
  | fixed hfixed => exact absurd hfixed (not_fixed (by simp [hfirst]))
  | float hdigit _ _ _ =>
      have hdigit := isDigit_iff.mp hdigit
      omega
  | integer hdigit _ =>
      have hdigit := isDigit_iff.mp hdigit
      omega
  | identifier hword _ =>
      have hword := startsWord_iff.mp hword
      omega
  | comment _ => cases hfirst
  | ignored _ hothers => exact ⟨rfl, hothers⟩

theorem Lexeme.of_hash (hlexeme : Lexeme kind '#' others) : kind = .comment ∧ '\n' ∉ others := by
  cases hlexeme with
  | fixed hfixed => exact absurd hfixed (not_fixed rfl)
  | float hdigit _ _ _ => cases hdigit
  | integer hdigit _ => cases hdigit
  | identifier hword _ => cases hword
  | comment hline => exact ⟨rfl, hline⟩
  | ignored hblank _ => cases hblank

/-- What begins otherwise is a fixed text. -/
theorem lexeme_symbol_iff (hword : startsWord first = false)
    (hdigit : Number.isDigit first = false) (hblank : separates first = false)
    (hhash : first ≠ '#') :
    Lexeme kind first others ↔ Kind.ofSymbols? (first :: others) = some kind := by
  constructor
  · intro hlexeme
    cases hlexeme with
    | fixed hfixed =>
        have hsymbols := Kind.fixedTexts_symbols _ hfixed (by simp [hword])
        rwa [String.toList_ofList] at hsymbols
    | float hfirst _ _ _ => exact absurd hfirst (by simp [hdigit])
    | integer hfirst _ => exact absurd hfirst (by simp [hdigit])
    | identifier hfirst _ => exact absurd hfirst (by simp [hword])
    | comment _ => exact absurd rfl hhash
    | ignored hfirst _ => exact absurd hfirst (by simp [hblank])
  · intro hkind
    exact .fixed (Kind.mem_fixedTexts_of_symbols hkind)

end First

end Token

end BeginCode
