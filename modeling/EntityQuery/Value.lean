import EntityQuery.Calendar.DateTime
import EntityQuery.Decimal.FloatText
import EntityQuery.Uuid

/-! # Values

A value is null or a scalar of one of eight types. Values are compared as SQL compares them:
against null, and between types that have no common order, the comparison is unknown; integers and
floats are compared as floats. The *key* of a value is the text by which records are identified and
matched; an integer and a float that is the same whole number share their key. -/
namespace EntityQuery

/-- The declared type of a scalar attribute. -/
inductive ScalarType where
  | boolean
  | integer
  | float
  | text
  | date
  | dateTime
  | timestamp
  | uuid
deriving DecidableEq, Repr

namespace ScalarType

/-- The name shown in messages. -/
def name : ScalarType → String
  | boolean => "boolean"
  | integer => "integer"
  | float => "float"
  | text => "text"
  | date => "date"
  | dateTime => "datetime"
  | timestamp => "timestamp"
  | uuid => "uuid"

/-- The type that a schema document names. -/
def ofName? : String → Option ScalarType
  | "boolean" => some boolean
  | "integer" => some integer
  | "float" => some float
  | "text" => some text
  | "date" => some date
  | "date_time" => some dateTime
  | "timestamp" => some timestamp
  | "uuid" => some uuid
  | _ => none

/-- The name of the type in a schema document. -/
def documentName : ScalarType → String
  | dateTime => "date_time"
  | type => type.name

@[simp] theorem ofName?_documentName (t : ScalarType) : ofName? t.documentName = some t := by
  cases t <;> rfl

/-- Whether values of the type can be added. -/
def isNumeric : ScalarType → Bool
  | integer | float => true
  | _ => false

end ScalarType

/-- Null or a scalar. Equality tells the types apart, and a NaN from itself. -/
inductive Value where
  | null
  | bool (b : Bool)
  | int (i : Int64)
  | float (f : Float)
  | text (s : String)
  | date (d : Calendar.Date)
  | dateTime (t : Calendar.DateTime)
  | timestamp (t : Calendar.Timestamp)
  | uuid (u : Uuid)
deriving BEq

namespace Value

instance : Inhabited Value := ⟨null⟩

/-- Whether the value is null. -/
def isNull : Value → Bool
  | null => true
  | _ => false

/-- The text, if the value is one. -/
def text? : Value → Option String
  | text s => some s
  | _ => none

/-- The number as a float, if the value is one. -/
def float? : Value → Option Float
  | int i => some (Decimal.ofInt64 i)
  | float f => some f
  | _ => none

/-- The order of two floats; none if one is a NaN. -/
def compareFloats (x y : Float) : Option Ordering :=
  if x < y then some .lt else if y < x then some .gt else if x == y then some .eq else none

/-- The order of two values, where it is known. -/
def compare : Value → Value → Option Ordering
  | bool a, bool b => some (Ord.compare a b)
  | int a, int b => some (Ord.compare a.toInt b.toInt)
  | text a, text b => some (Ord.compare a b)
  | date a, date b => some (Ord.compare a b)
  | dateTime a, dateTime b => some (Ord.compare a b)
  | timestamp a, timestamp b => some (Ord.compare a b)
  | uuid a, uuid b => some (Ord.compare a b)
  | a, b => do compareFloats (← a.float?) (← b.float?)

/-- The text shown for a value. -/
def display : Value → String
  | null => "NULL"
  | bool b => if b then "true" else "false"
  | int i => String.ofList (Decimal.signedText i.toInt)
  | float f => String.ofList (Decimal.floatText .plain f)
  | text s => s
  | date d => String.ofList d.text
  | dateTime t => String.ofList t.text
  | timestamp t => String.ofList t.text
  | uuid u => String.ofList u.text

/-- The key of a whole number. -/
def wholeKey (i : Int64) : String := "n:" ++ String.ofList (Decimal.signedText i.toInt)

/-- The text by which a record with this id is identified. -/
def key : Value → String
  | int i => wholeKey i
  | float f =>
    match Decimal.wholeNumber? f with
    | some n => wholeKey (Decimal.saturate n)
    | none => (float f).display
  | v => v.display

@[simp] theorem compare_null_left (v : Value) : null.compare v = none := by
  cases v <;> rfl

@[simp] theorem compare_null_right (v : Value) : v.compare null = none := by
  cases v <;> rfl

end Value

end EntityQuery
