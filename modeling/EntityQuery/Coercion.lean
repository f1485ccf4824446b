import EntityQuery.Error
import EntityQuery.Json.Basic

/-! # Literals and JSON forms of values

A literal of a filter becomes a value of the type of the attribute it is compared with. Blanks
around a literal do not count, except in a text. In answers nulls, truth values, numbers and texts
have a form of their own in JSON, and every other value is shown as a text. -/
namespace EntityQuery

namespace ScalarType

/-- The value that a trimmed literal writes, for every type but text. -/
def read? : ScalarType → List Char → Option Value
  | boolean, s =>
    let lower := Text.asciiLower s
    if lower = ['t', 'r', 'u', 'e'] ∨ lower = ['1'] then some (.bool true)
    else if lower = ['f', 'a', 'l', 's', 'e'] ∨ lower = ['0'] then some (.bool false)
    else none
  | integer, s => (Decimal.integer? s).map .int
  | float, s => ((Decimal.float? s).filter Float.isFinite).map .float
  | text, _ => none
  | date, s => (Calendar.Date.read? s).map .date
  | dateTime, s => (Calendar.DateTime.read? s).map .dateTime
  | timestamp, s => (Calendar.Timestamp.read? s).map .timestamp
  | uuid, s => (Uuid.read? s).map .uuid

/-- The value of this type that the literal `raw` writes; `field` is named in the error. -/
def coerce (type : ScalarType) (field raw : String) : Except Error Value :=
  match type with
  | text => .ok (.text raw)
  | type =>
    match type.read? (Text.trim raw.toList) with
    | some v => .ok v
    | none => .error (.typeCoercion field raw type)

end ScalarType

/-- The JSON form of a value: dates, times and identifiers are texts. -/
def Value.json : Value → Json
  | .null => .null
  | .bool b => .bool b
  | .int i => .int i.toInt
  | .float f => .float f
  | v => .text v.display

end EntityQuery
