import BeginCode.Number.Integer

/-!
# Integers in decimal

A run of digits with an optional sign is read as the number that it denotes, if that fits in 64
bits. The text of a 64-bit integer is therefore read back as that integer, also of the smallest one.
-/

namespace BeginCode.Number

/-! ### Digits -/

theorem isDigit_of_mem_toDigits {n : Nat} {c : Char} (hmem : c ∈ toDigits n) :
    isDigit c = true :=
  Nat.isDigit_of_mem_toDigits (by omega) (by omega) hmem

theorem toDigits_ne_nil (n : Nat) : toDigits n ≠ [] := Nat.toDigits_ne_nil

theorem ofDigits_toDigits (n : Nat) : ofDigits (toDigits n) = n :=
  Nat.ofDigitChars_toDigits (by omega) (by omega)

theorem mem_integerText {n : Int} {c : Char} (hmem : c ∈ (integerText n).toList) :
    isDigit c = true ∨ c = '-' := by
  cases n with
  | ofNat magnitude =>
      rw [integerText, String.toList_ofList] at hmem
      exact .inl (isDigit_of_mem_toDigits hmem)
  | negSucc magnitude =>
      rw [integerText, String.toList_ofList] at hmem
      rcases List.mem_cons.mp hmem with hminus | hmem
      · exact .inr hminus
      · exact .inl (isDigit_of_mem_toDigits hmem)

/-! ### Numbers that fit -/

theorem fitsInt64_iff {n : Int} :
    FitsInt64 n ↔ -9223372036854775808 ≤ n ∧ n ≤ 9223372036854775807 := Iff.rfl

theorem fitsInt64_toInt (n : Int64) : FitsInt64 n.toInt := ⟨n.le_toInt, n.toInt_le⟩

theorem toInt_ofInt {n : Int} (hfits : FitsInt64 n) : (Int64.ofInt n).toInt = n := by
  obtain ⟨hleast, hgreatest⟩ := fitsInt64_iff.mp hfits
  exact Int64.toInt_ofInt_of_le hleast (by omega)

/-! ### Reading -/

/-- A text that begins with a digit has no sign. -/
theorem splitSign_of_isDigit {text : List Char} (hhead : ∀ c ∈ text.head?, isDigit c = true) :
    splitSign text = (false, text) := by
  unfold splitSign
  split
  · exact absurd (hhead '-' rfl) (by decide)
  · exact absurd (hhead '+' rfl) (by decide)
  · rfl

theorem int64?_toInt (n : Int64) : int64? n.toInt = some n := by
  rw [int64?, if_pos (fitsInt64_toInt n), Int64.ofInt_toInt]

/-- Digits after a sign, or without one. -/
theorem readInt64?_of_splitSign {text digits : List Char} {negative : Bool}
    (hsign : splitSign text = (negative, digits)) (hsome : digits ≠ [])
    (hdigits : ∀ c ∈ digits, isDigit c = true) :
    readInt64? text = int64? (if negative then -(ofDigits digits : Int) else ofDigits digits) := by
  have hread : (digits.isEmpty || !digits.all isDigit) = false := by
    rw [Bool.or_eq_false_iff, List.isEmpty_eq_false_iff, Bool.not_eq_false', List.all_eq_true]
    exact ⟨hsome, hdigits⟩
  simp only [readInt64?, hsign, hread, Bool.false_eq_true, if_false]
  cases negative <;> rfl

theorem mem_of_mem_splitSign {text : List Char} {c : Char} (hmem : c ∈ (splitSign text).2) :
    c ∈ text := by
  unfold splitSign at hmem
  split at hmem
  · exact List.mem_cons_of_mem _ hmem
  · exact List.mem_cons_of_mem _ hmem
  · exact hmem

/-- Without digits there is no number. -/
theorem readInt64?_eq_none {text : List Char} (htext : text.any isDigit = false) :
    readInt64? text = none := by
  have hrefused : ((splitSign text).2.isEmpty || !(splitSign text).2.all isDigit) = true := by
    cases hdigits : (splitSign text).2 with
    | nil => rfl
    | cons c digits =>
        have hmem : c ∈ text := by
          apply mem_of_mem_splitSign
          rw [hdigits]
          exact List.mem_cons_self
        rw [List.all_cons, Bool.eq_false_iff.mpr (List.any_eq_false.mp htext c hmem)]
        rfl
  rw [readInt64?]
  dsimp only
  rw [if_pos hrefused]

theorem readInt64?_integerText (n : Int64) : readInt64? (integerText n.toInt).toList = some n := by
  rw [← int64?_toInt n]
  cases n.toInt with
  | ofNat magnitude =>
      have hsign : splitSign (toDigits magnitude) = (false, toDigits magnitude) :=
        splitSign_of_isDigit fun c hmem => isDigit_of_mem_toDigits (List.mem_of_mem_head? hmem)
      rw [integerText, String.toList_ofList, readInt64?_of_splitSign hsign
        (toDigits_ne_nil magnitude) fun c hmem => isDigit_of_mem_toDigits hmem, ofDigits_toDigits]
      rfl
  | negSucc magnitude =>
      have hsign : splitSign ('-' :: toDigits (magnitude + 1)) =
          (true, toDigits (magnitude + 1)) := rfl
      rw [integerText, String.toList_ofList, readInt64?_of_splitSign hsign
        (toDigits_ne_nil (magnitude + 1)) fun c hmem => isDigit_of_mem_toDigits hmem,
        ofDigits_toDigits]
      rfl

end BeginCode.Number
