import BeginCode.Proofs.IntegerArithmetic
import BeginCode.Proofs.TextLiterals
import BeginCode.Proofs.TokenPrinting

/-!
# Displayed integers as source

What `DISPLAY` writes for an integer is an expression for it. The sign is not part of the literal: a
negative integer is scanned as two tokens and read as the negation of its magnitude. The magnitude
of the least integer is too large for a literal, and so that integer alone is rejected.
-/

namespace BeginCode

open BeginCode.Token (Kind)

/-! ### Scanning -/

namespace Source

theorem mem_digits_toDigits (n : Nat) : Number.toDigits n ∈ Pattern.digits.language :=
  Pattern.mem_digits.mpr ⟨Number.toDigits_ne_nil n, fun _ => Number.isDigit_of_mem_toDigits⟩

/-- Digits up to the end are one piece. -/
theorem pieces_digits {digits : List Char} (hdigits : digits ∈ Pattern.digits.language)
    (line : Nat) : pieces line digits = ([runPiece digits line], line) := by
  obtain ⟨hsome, hall⟩ := Pattern.mem_digits.mp hdigits
  obtain ⟨first, others, rfl⟩ := List.exists_cons_of_ne_nil hsome
  obtain ⟨hfirst, hothers⟩ := List.forall_mem_cons.mp hall
  obtain ⟨hhash, hblank⟩ := class_of_wordOrNumber (.inr hfirst)
  have hseparated : Separated [] := by simp [Separated]
  have hstep := step_of_lexeme (.integer hfirst hothers) hhash hblank (by simp) hseparated line
  rw [List.append_nil] at hstep
  rw [pieces, hstep, taken, pieces]
  rfl

/-- A minus sign and digits up to the end are two pieces. -/
theorem pieces_minus_digits {digits : List Char} (hdigits : digits ∈ Pattern.digits.language)
    (line : Nat) :
    pieces line ('-' :: digits) = ([.plain .minus ['-'] line, runPiece digits line], line) := by
  obtain ⟨first, others, rfl⟩ :=
    List.exists_cons_of_ne_nil (Pattern.mem_digits.mp hdigits).1
  have hstep : step line '-' (first :: others) =
      ⟨[.plain .minus ['-'] line], line, first :: others⟩ := rfl
  rw [pieces, hstep, pieces_digits hdigits]
  rfl

theorem runPiece_toDigits {n : Nat} (hn : n < 2 ^ 63) (line : Nat) :
    runPiece (Number.toDigits n) line = .token ((Value.integer (.ofNat n)).token line) := by
  have hvalue : (Int64.ofNat n).toInt = n := Int64.toInt_ofNat_of_lt hn
  rw [runPiece, Number.ofDigits_toDigits, if_pos (by omega), Value.token, Value.display, hvalue]
  rfl

theorem runPiece_toDigits_large {n : Nat} (hn : 2 ^ 63 ≤ n) (line : Nat) :
    runPiece (Number.toDigits n) line =
      .reject (Number.toDigits n) (.invalidNumber (String.ofList (Number.toDigits n))) line := by
  rw [runPiece, Number.ofDigits_toDigits, if_neg (by omega)]

end Source

theorem scan_integerText_ofNat (n : Nat) :
    scan (Number.integerText (.ofNat n)) = ⟨[Source.runPiece (Number.toDigits n) 1], 1⟩ := by
  rw [scan, Number.integerText, String.toList_ofList,
    Source.pieces_digits (Source.mem_digits_toDigits n)]

theorem scan_integerText_negSucc (n : Nat) :
    scan (Number.integerText (.negSucc n)) =
      ⟨[.plain .minus ['-'] 1, Source.runPiece (Number.toDigits (n + 1)) 1], 1⟩ := by
  rw [scan, Number.integerText, String.toList_ofList,
    Source.pieces_minus_digits (Source.mem_digits_toDigits (n + 1))]

/-- The expression for an integer: its literal, or the negation of that of its magnitude. -/
def Expr.ofInteger : Int → Expr
  | .ofNat n => .literal (.integer (.ofNat n)) 1
  | .negSucc n => .unary .negate (.literal (.integer (.ofNat (n + 1))) 1) 1

/-- The displayed text is scanned as the expression is printed. -/
theorem scan_integerText {n : Int} (hlow : -9223372036854775808 < n)
    (hhigh : n ≤ 9223372036854775807) :
    scan (Number.integerText n) = ⟨((Expr.ofInteger n).print 1).map .token, 1⟩ := by
  cases n with
  | ofNat n =>
      have hn : n < 2 ^ 63 := Nat.lt_succ_of_le (Int.ofNat_le.mp hhigh)
      rw [scan_integerText_ofNat, Source.runPiece_toDigits hn]
      rfl
  | negSucc n =>
      have hn : n + 1 < 2 ^ 63 := by omega
      rw [scan_integerText_negSucc, Source.runPiece_toDigits hn]
      rfl

/-- The text of the least integer has the sign for its only token. -/
theorem scan_integerText_least :
    scan (Number.integerText (-9223372036854775808)) =
      ⟨[.plain .minus ['-'] 1, .reject "9223372036854775808".toList
        (.invalidNumber "9223372036854775808") 1], 1⟩ := by
  have hleast : (-9223372036854775808 : Int) = .negSucc (2 ^ 63 - 1) := by decide
  have hdigits : Number.toDigits (2 ^ 63 - 1 + 1) = "9223372036854775808".toList := by decide
  rw [hleast, scan_integerText_negSucc, Source.runPiece_toDigits_large (by decide), hdigits,
    String.ofList_toList]

theorem Scan.errors_map_token {tokens : List Token} {line : Nat} :
    (Scan.mk (tokens.map .token) line).errors = [] := by
  rw [errors, List.filterMap_eq_nil_iff]
  intro piece hmem
  obtain ⟨token, -, rfl⟩ := List.mem_map.mp hmem
  rfl

theorem Scan.tokens_map_token {tokens : List Token} {line : Nat} :
    (Scan.mk (tokens.map .token) line).tokens =
      tokens ++ [{ kind := .endOfInput, lexeme := "", line }] := by
  rw [Scan.tokens, List.filterMap_map]
  exact congrArg (· ++ _) List.filterMap_some

/-! ### Reading and evaluating -/

namespace Expr

theorem fits_ofInteger (n : Int) : (ofInteger n).fits .assignment = true := by
  cases n <;> rfl

theorem onLine_ofInteger (n : Int) : (ofInteger n).onLine 1 = ofInteger n := by
  cases n <;> rfl

theorem evaluates_negated {value negated : Value}
    (hnegated : UnaryOp.negate.apply value = .ok negated) (line other : Nat) :
    (unary .negate (literal value line) other).Evaluates negated := by
  intro environment
  rw [eval, EStateM.run_bind, evaluates_literal]
  dsimp only
  rw [hnegated]
  rfl

theorem evaluates_ofInteger {n : Int64} (hn : -9223372036854775808 < n.toInt) :
    (ofInteger n.toInt).Evaluates (.integer n) := by
  have hhigh := n.toInt_lt
  cases hvalue : n.toInt with
  | ofNat m =>
      have hliteral : Int64.ofNat m = n := by
        rw [hvalue] at hhigh
        rw [← Int64.toInt_inj, hvalue]
        exact Int64.toInt_ofNat_of_lt (Int.ofNat_lt.mp hhigh)
      rw [ofInteger, hliteral]
      exact evaluates_literal _ 1
  | negSucc m =>
      have hmagnitude : (Int64.ofNat (m + 1)).toInt = (m + 1 : Nat) :=
        Int64.toInt_ofNat_of_lt (by omega)
      obtain ⟨negated, hnegated, hsame⟩ :
          ∃ negated, UnaryOp.negate.apply (.integer (.ofNat (m + 1))) = .ok (.integer negated) ∧
            negated.toInt = -(Int64.ofNat (m + 1)).toInt :=
        UnaryOp.exists_apply_negate (by omega)
      obtain rfl : negated = n := by
        rw [← Int64.toInt_inj, hsame, hmagnitude, hvalue, Int.neg_ofNat_succ]
      exact evaluates_negated hnegated 1 1

/-- What is displayed for an integer is scanned without an error and read as one expression up to
the end of input, and this evaluates to the integer and changes nothing. Only for the least integer
scanning reports an error, and just one: its magnitude is no literal. -/
theorem read_displayed (n : Int64) (cursor : Cursor) :
    (-9223372036854775808 < n.toInt →
      (scan (Value.integer n).display).errors = [] ∧
      ∃ expr used last, (scan (Value.integer n).display).tokens = used ++ [last] ∧
        last.kind = .endOfInput ∧
        Expr.read.run (cursor.goTo (used ++ [last])) = .ok expr (cursor.goTo [last]) ∧
        ∀ world, (Exec.ofEval expr.eval).run world = .ok (.integer n) world) ∧
    (n.toInt = -9223372036854775808 →
      (scan (Value.integer n).display).errors =
        [⟨.invalidNumber "9223372036854775808", 1⟩]) := by
  refine ⟨fun hn => ?_, fun hleast => ?_⟩
  · rw [Value.display, scan_integerText hn n.toInt_le]
    let last : Token := { kind := .endOfInput, lexeme := "", line := 1 }
    have hspelled : Spelled ((ofInteger n.toInt).print 1 ++ [last])
        ((ofInteger n.toInt).onLine 1) [last] := spelled_print (fits_ofInteger n.toInt) 1 rfl
    rw [onLine_ofInteger] at hspelled
    refine ⟨Scan.errors_map_token, _, _, last, Scan.tokens_map_token, rfl,
      hspelled.run_read cursor, fun world => ?_⟩
    rw [Exec.run_ofEval, evaluates_ofInteger hn]
  · rw [Value.display, hleast, scan_integerText_least]
    rfl

/-- The two integers on either side of the bound. -/
theorem read_displayed_bound :
    -9223372036854775808 < (-9223372036854775807 : Int64).toInt ∧
      (scan "-9223372036854775807").errors = [] ∧
      (∃ expr later, Expr.read.run { rest := (scan "-9223372036854775807").tokens } =
          .ok expr later ∧
        later.head.kind = .endOfInput ∧
        (Exec.ofEval expr.eval).run ⟨⟨[]⟩, ⟨[], [], none⟩⟩ =
          .ok (.integer (-9223372036854775807)) ⟨⟨[]⟩, ⟨[], [], none⟩⟩) ∧
      (scan "-9223372036854775808").errors = [⟨.invalidNumber "9223372036854775808", 1⟩] := by
  have hn : -9223372036854775808 < (-9223372036854775807 : Int64).toInt := by decide
  obtain ⟨herrors, expr, used, last, htokens, hlast, hread, heval⟩ :=
    (read_displayed (-9223372036854775807) { rest := [] }).1 hn
  have hleast := (read_displayed Int64.minValue { rest := [] }).2 (by decide)
  rw [← htokens] at hread
  exact ⟨hn, herrors, ⟨expr, _, hread, hlast, heval _⟩, hleast⟩

end Expr

end BeginCode
