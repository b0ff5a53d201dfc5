import PagedStore.Limits

/-!
Values and their types. A value is a 32-bit signed integer or a text; a type says which of the two,
and how many bytes a column of it takes on a page.
-/

namespace PagedStore

inductive ValueType where
  | integer
  | text
deriving DecidableEq, Repr

namespace ValueType

def name : ValueType → String
  | integer => "INTEGER"
  | text => "TEXT"

def width : ValueType → Nat
  | integer => 4
  | text => 4 + Limits.textBytes

end ValueType

inductive Value where
  | integer (number : Int32)
  | text (content : String)
deriving DecidableEq

namespace Value

def type : Value → ValueType
  | integer _ => .integer
  | text _ => .text

def integer? : Value → Option Int32
  | integer number => some number
  | text _ => none

def text? : Value → Option String
  | integer _ => none
  | text content => some content

def display : Value → String
  | integer number => s!"{number.toInt}"
  | text content => content

end Value

end PagedStore
