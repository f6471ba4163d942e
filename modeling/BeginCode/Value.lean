import BeginCode.Number.Integer
import BeginCode.Number.Positional

/-!
# Values

What a variable holds and an expression yields. A declared type admits the values of its own kind
and no others; in particular no type admits nil.
-/

namespace BeginCode

/-- The type that a declaration gives to a variable. -/
inductive ValueType where
  | int
  | char
  | bool
  | float
  | string
  deriving DecidableEq, Repr

def ValueType.all : List ValueType := [.int, .char, .bool, .float, .string]

theorem ValueType.mem_all (type : ValueType) : type ∈ ValueType.all := by
  cases type <;> decide

/-- The keyword that declares variables of the type. -/
def ValueType.keyword : ValueType → String
  | .int => "INT"
  | .char => "CHAR"
  | .bool => "BOOL"
  | .float => "FLOAT"
  | .string => "STRING"

inductive Value where
  | nil
  | integer (n : Int64)
  | float (x : Float)
  | char (c : Char)
  | bool (b : Bool)
  | text (s : String)
  deriving DecidableEq, Repr

namespace Value

def type? : Value → Option ValueType
  | nil => none
  | integer _ => some .int
  | float _ => some .float
  | char _ => some .char
  | bool _ => some .bool
  | text _ => some .string

/-- Nil and `FALSE` are the only values that do not count as true. -/
def truthy : Value → Bool
  | nil => false
  | bool b => b
  | _ => true

/-- The double nearest to a number. -/
def widen? : Value → Option Float
  | integer n => some (Float.ofInt n.toInt)
  | float x => some x
  | _ => none

def isNumeric (value : Value) : Bool := value.widen?.isSome

/-- Values of different kinds are never the same, and a float compares as a number: an undefined one
differs from itself and both zeros are the same. -/
def same : Value → Value → Bool
  | nil, nil => true
  | integer a, integer b => a == b
  | float a, float b => a == b
  | char a, char b => a == b
  | bool a, bool b => a == b
  | text a, text b => a == b
  | _, _ => false

/-- The text that `DISPLAY` writes. -/
def display : Value → String
  | nil => "nil"
  | integer n => Number.integerText n.toInt
  | float x => Number.floatText x
  | char c => String.singleton c
  | bool true => "TRUE"
  | bool false => "FALSE"
  | text s => s

end Value

def ValueType.admits (type : ValueType) (value : Value) : Bool := value.type? == some type

@[simp]
theorem ValueType.not_admits_nil (type : ValueType) : type.admits .nil = false := rfl

theorem ValueType.admits_iff {type : ValueType} {value : Value} :
    type.admits value = true ↔ value.type? = some type := by
  simp [admits]

end BeginCode
