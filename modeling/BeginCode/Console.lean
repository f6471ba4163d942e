/-!
# Consoles

The input that a program has not read yet and the output that it has written. An output can have
room for a limited number of bytes only: of a write that does not fit, the bytes that fit are kept.
-/

namespace BeginCode

structure Console where
  unread : List UInt8
  /-- The written bytes, the latest one first. -/
  written : List UInt8 := []
  /-- How many more bytes the output takes, if it is limited. -/
  room : Option Nat := none
  deriving DecidableEq, Repr

namespace Console

def utf8 (text : String) : List UInt8 := text.toByteArray.data.toList

/-- The text that a run of bytes encodes, if it is valid UTF-8. -/
def decode? (bytes : List UInt8) : Option String := String.fromUTF8? ⟨bytes.toArray⟩

def output (console : Console) : List UInt8 := console.written.reverse

/-- Writes bytes and says whether all of them fitted. -/
def write (console : Console) (bytes : List UInt8) : Bool × Console :=
  match console.room with
  | none => (true, { console with written := bytes.reverseAux console.written })
  | some room =>
      (decide (bytes.length ≤ room),
        { console with
          written := (bytes.take room).reverseAux console.written
          room := some (room - bytes.length) })

/-- Takes one line of input with its line end, or all that is left. -/
def takeLine (console : Console) : List UInt8 × Console :=
  let line := console.unread.takeWhile (· ≠ 10)
  match console.unread.dropWhile (· ≠ 10) with
  | [] => (line, { console with unread := [] })
  | lineEnd :: rest => (line ++ [lineEnd], { console with unread := rest })

theorem takeLine_append (console : Console) :
    console.takeLine.1 ++ console.takeLine.2.unread = console.unread := by
  have hsplit : console.unread.takeWhile (· ≠ 10) ++ console.unread.dropWhile (· ≠ 10) =
      console.unread := List.takeWhile_append_dropWhile
  unfold takeLine
  split
  · rename_i hrest
    rw [hrest] at hsplit
    exact hsplit
  · rename_i lineEnd rest hrest
    rw [hrest] at hsplit
    exact (List.append_assoc _ _ _).trans hsplit

end Console

end BeginCode
