import BeginCode.Error

/-!
# Reports

The errors of one run in the order in which they were found.
-/

namespace BeginCode

inductive Report.Entry where
  | lexical (error : LexicalError)
  | grammatical (error : SyntaxError)
  | runtime (error : RuntimeError)
  deriving DecidableEq, Repr

namespace Report.Entry

def line : Entry → Nat
  | lexical error => error.line
  | grammatical error => error.line
  | runtime error => error.line

def message : Entry → String
  | lexical error => error.message LexicalCause.detail
  | grammatical error => error.message SyntaxCause.detail
  | runtime error => error.message RuntimeCause.detail

/-- Errors found before the program runs. -/
def isStatic : Entry → Bool
  | lexical _ => true
  | grammatical _ => true
  | runtime _ => false

end Report.Entry

structure Report where
  entries : List Report.Entry
  deriving DecidableEq, Repr

namespace Report

def empty : Report := ⟨[]⟩

def add (report : Report) (entry : Entry) : Report := ⟨report.entries ++ [entry]⟩

def isEmpty (report : Report) : Bool := report.entries.isEmpty

def size (report : Report) : Nat := report.entries.length

def hasStaticError (report : Report) : Bool := report.entries.any Entry.isStatic

def hasRuntimeError (report : Report) : Bool := report.entries.any fun entry => !entry.isStatic

/-- The messages, one on a line. -/
def text (report : Report) : String :=
  "\n".intercalate (report.entries.map Entry.message)

@[simp]
theorem entries_empty : empty.entries = [] := rfl

@[simp]
theorem entries_add (report : Report) (entry : Entry) :
    (report.add entry).entries = report.entries ++ [entry] := rfl

end Report

end BeginCode
