import BeginCode.Text.Blank

/-!
# Fields of a line

A line of input is cut at its commas, and blanks around each field are dropped.
-/

namespace BeginCode.Text

/-- The parts between separators; there is always one more part than there are separators. -/
def splitAt (separator : Char) : List Char → List (List Char)
  | [] => [[]]
  | c :: rest =>
      if c = separator then [] :: splitAt separator rest
      else
        match splitAt separator rest with
        | [] => [[c]]
        | part :: parts => (c :: part) :: parts

def dropEnd (drop : Char → Bool) (text : List Char) : List Char :=
  (text.reverse.dropWhile drop).reverse

def trim (text : List Char) : List Char := dropEnd isBlank (text.dropWhile isBlank)

/-- A line without the line ends that close it. -/
def dropLineEnd (line : List Char) : List Char :=
  dropEnd (fun c => c = '\n' || c = '\r') line

def fields (line : List Char) : List (List Char) :=
  (splitAt ',' (dropLineEnd line)).map trim

theorem splitAt_ne_nil (separator : Char) (text : List Char) : splitAt separator text ≠ [] := by
  induction text with
  | nil => simp [splitAt]
  | cons c rest ih =>
      simp only [splitAt]
      split
      · simp
      · split <;> simp

theorem length_splitAt (separator : Char) (text : List Char) :
    (splitAt separator text).length = text.count separator + 1 := by
  induction text with
  | nil => rfl
  | cons c rest ih =>
      by_cases hc : c = separator
      · simp [splitAt, hc, ih]
      · simp only [splitAt, hc, if_false, List.count_cons, beq_iff_eq]
        cases hparts : splitAt separator rest with
        | nil => exact absurd hparts (splitAt_ne_nil separator rest)
        | cons part parts => simpa [hparts] using ih

/-- The text before a separator and the text after it are cut on their own. -/
theorem splitAt_append_separator (separator : Char) (before after : List Char) :
    splitAt separator (before ++ separator :: after) =
      splitAt separator before ++ splitAt separator after := by
  induction before with
  | nil => simp [splitAt]
  | cons c rest ih =>
      by_cases hc : c = separator
      · simp [splitAt, hc, ih]
      · simp only [List.cons_append, splitAt, hc, if_false, ih]
        cases hparts : splitAt separator rest with
        | nil => exact absurd hparts (splitAt_ne_nil separator rest)
        | cons part parts => rfl

end BeginCode.Text
