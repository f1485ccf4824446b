import EntityQuery.Error

/-! # Bind values

The values that a statement is sent with: a scalar for a literal, an array of one type for a list.
An array takes the type of the first value that is not null, integers becoming floats where there
is a float among them, and leaves out what it cannot hold. -/
namespace EntityQuery

/-- The type of a value other than null. -/
def Value.type? : Value → Option ScalarType
  | null => none
  | bool _ => some .boolean
  | int _ => some .integer
  | float _ => some .float
  | text _ => some .text
  | date _ => some .date
  | dateTime _ => some .dateTime
  | timestamp _ => some .timestamp
  | uuid _ => some .uuid

namespace Sql

/-- A value sent with a statement. -/
inductive Bind where
  | scalar (v : Value)
  | array (type : ScalarType) (items : List Value)

namespace Bind

/-- The type of an array of these values. -/
def arrayType (vs : List Value) : ScalarType :=
  match vs.findSome? Value.type? with
  | some .integer => if vs.any (·.type? = some .float) then .float else .integer
  | some type => type
  | none => .text

/-- A value as an item of an array of this type, if it can be one. -/
def arrayItem (type : ScalarType) (v : Value) : Option Value :=
  match type, v with
  | .float, .int i => some (.float (Decimal.ofInt64 i))
  | .text, v => if v.isNull then none else some (.text v.display)
  | type, v => if v.type? = some type then some v else none

/-- The array of these values. -/
def ofList (vs : List Value) : Bind :=
  let type := arrayType vs
  array type (vs.filterMap (arrayItem type))

/-- The name of a type in the description of a bind value. -/
def typeLabel : ScalarType → String
  | .boolean => "Bool"
  | .integer => "Int"
  | .float => "Float"
  | .text => "Text"
  | .date => "Date"
  | .dateTime => "DateTime"
  | .timestamp => "Timestamp"
  | .uuid => "Uuid"

/-- The description of a value. Timestamps end in `Z`, and floats show that they are floats. -/
def describeValue : Value → String
  | .float f => String.ofList (Decimal.floatText .exact f)
  | .text s => quoteText s
  | .timestamp t => String.ofList (t.utc.text ++ ['Z'])
  | v => v.display

/-- The description of a bind value: its type, and the value between parentheses. -/
def describe : Bind → String
  | scalar v =>
    match v.type? with
    | some type => typeLabel type ++ "(" ++ describeValue v ++ ")"
    | none => "Null"
  | array type items =>
    typeLabel type ++ "Array([" ++ String.intercalate ", " (items.map describeValue) ++ "])"

/-- The description of a list of bind values. -/
def describeList (binds : List Bind) : String :=
  "[" ++ String.intercalate ", " (binds.map describe) ++ "]"

end Bind

end Sql

end EntityQuery
