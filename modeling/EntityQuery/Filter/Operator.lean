import EntityQuery.Error

/-! # Operators and functions

The operators by which a filter compares, and the functions that make one value of many. Both are
known by their names in the language. -/
namespace EntityQuery

/-- An operator of a comparison. -/
inductive Operator where
  | eq
  | isNull
  | gt
  | lt
  | gte
  | lte
  | isIn
  | contains
  | iContains
  | startsWith
  | iStartsWith
  | endsWith
  | iEndsWith
deriving DecidableEq, Repr

namespace Operator

/-- The operator of this name. -/
def ofName? : String → Option Operator
  | "eq" => some eq
  | "isnull" => some isNull
  | "gt" => some gt
  | "lt" => some lt
  | "gte" => some gte
  | "lte" => some lte
  | "in" => some isIn
  | "contains" => some contains
  | "icontains" => some iContains
  | "startswith" => some startsWith
  | "istartswith" => some iStartsWith
  | "endswith" => some endsWith
  | "iendswith" => some iEndsWith
  | _ => none

/-- The name of the operator in the language. -/
def name : Operator → String
  | eq => "eq"
  | isNull => "isnull"
  | gt => "gt"
  | lt => "lt"
  | gte => "gte"
  | lte => "lte"
  | isIn => "in"
  | contains => "contains"
  | iContains => "icontains"
  | startsWith => "startswith"
  | iStartsWith => "istartswith"
  | endsWith => "endswith"
  | iEndsWith => "iendswith"

/-- The name of the operator in reports, its words separated. -/
def spacedName : Operator → String
  | eq => "eq"
  | isNull => "is_null"
  | gt => "gt"
  | lt => "lt"
  | gte => "gte"
  | lte => "lte"
  | isIn => "in"
  | contains => "contains"
  | iContains => "i_contains"
  | startsWith => "starts_with"
  | iStartsWith => "i_starts_with"
  | endsWith => "ends_with"
  | iEndsWith => "i_ends_with"

/-- Whether the operator looks for a text in another. -/
def isPattern : Operator → Bool
  | contains | iContains | startsWith | iStartsWith | endsWith | iEndsWith => true
  | _ => false

/-- Whether the operator disregards the case of letters. -/
def ignoresCase : Operator → Bool
  | iContains | iStartsWith | iEndsWith => true
  | _ => false

@[simp] theorem ofName?_name (o : Operator) : ofName? o.name = some o := by
  cases o <;> rfl

end Operator

/-- A function that makes one value of many. -/
inductive Aggregate where
  | count
  | countDistinct
  | avg
  | sum
  | max
  | min
  | greatest
  | least
deriving DecidableEq, Repr

namespace Aggregate

/-- The function of this name. -/
def ofName? : String → Option Aggregate
  | "count" => some count
  | "count_distinct" => some countDistinct
  | "avg" => some avg
  | "sum" => some sum
  | "max" => some max
  | "min" => some min
  | "greatest" => some greatest
  | "least" => some least
  | _ => none

/-- The name of the function. -/
def name : Aggregate → String
  | count => "count"
  | countDistinct => "count_distinct"
  | avg => "avg"
  | sum => "sum"
  | max => "max"
  | min => "min"
  | greatest => "greatest"
  | least => "least"

@[simp] theorem ofName?_name (f : Aggregate) : ofName? f.name = some f := by
  cases f <;> rfl

/-- The type of what the function makes of values of type `type`; `field` is named in the error. -/
def resultType (f : Aggregate) (field : String) (type : ScalarType) : Except Error ScalarType :=
  match f with
  | count | countDistinct => .ok .integer
  | avg => if type.isNumeric then .ok .float else .error (.unsupportedOperator f.name field)
  | sum => if type.isNumeric then .ok type else .error (.unsupportedOperator f.name field)
  | max | min | greatest | least => .ok type

end Aggregate

end EntityQuery
