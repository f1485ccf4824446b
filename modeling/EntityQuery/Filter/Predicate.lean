import EntityQuery.Coercion
import EntityQuery.Filter.Formula
import EntityQuery.Filter.Operator
import EntityQuery.Path

/-! # Predicates

A predicate is a formula of comparisons between attributes, functions of attributes, and values.
The JSON form leaves open how a value is written. -/
namespace EntityQuery

/-- A side of a comparison. -/
inductive Operand where
  | attr (a : AttrRef)
  | aggregate (f : Aggregate) (a : AttrRef)
  | literal (v : Value)
  | list (vs : List Value)
  /-- The right side of a test for null. -/
  | none

/-- Whether the operand applies a function. -/
def Operand.isAggregate : Operand → Bool
  | aggregate _ _ => true
  | _ => false

/-- The attribute, if the operand is one by itself. -/
def Operand.attr? : Operand → Option AttrRef
  | attr a => some a
  | _ => Option.none

/-- A comparison. A test for null is negated exactly if it asks for what is not null. -/
structure Comparison where
  left : Operand
  operator : Operator
  negate : Bool
  /-- Whether null equals null, and nothing else. -/
  nullSafe : Bool
  right : Operand

/-- Whether a side of the comparison applies a function. -/
def Comparison.isAggregate (c : Comparison) : Bool := c.left.isAggregate || c.right.isAggregate

/-- A formula of comparisons. -/
abbrev Predicate := Formula Comparison

/-- Whether a comparison applies a function. -/
def Predicate.isAggregate (p : Predicate) : Bool := p.any Comparison.isAggregate

/-- The list with the item at its end, unless it is there already. -/
def addNew {α : Type} [DecidableEq α] (l : List α) (a : α) : List α :=
  if a ∈ l then l else l ++ [a]

/-- The attributes that share a comparison with a function, each once, in the order of the text. -/
def Predicate.groupingAttributes (p : Predicate) : List AttrRef :=
  let shared := (p.leaves.filter Comparison.isAggregate).flatMap fun c =>
    c.left.attr?.toList ++ c.right.attr?.toList
  shared.foldl addNew []

/-! ## JSON forms -/

/-- The JSON form of an operand. -/
def Operand.json (value : Value → Json) : Operand → Json
  | attr a => .object [("attribute", a.json)]
  | aggregate f a => .object [("aggregate", .list [.text f.name, a.json])]
  | literal v => .object [("literal", value v)]
  | list vs => .object [("list", .list (vs.map value))]
  | none => .text "none"

/-- The JSON form of a comparison. -/
def Comparison.json (value : Value → Json) (c : Comparison) : Json :=
  .object [("left", c.left.json value), ("operator", .text c.operator.spacedName),
    ("negate", .bool c.negate), ("null_safe", .bool c.nullSafe), ("right", c.right.json value)]

/-- The JSON form of a predicate. -/
def Predicate.json (value : Value → Json) : Predicate → Json
  | .and a b => .object [("and", .list [json value a, json value b])]
  | .or a b => .object [("or", .list [json value a, json value b])]
  | .not a => .object [("not", json value a)]
  | .leaf c => .object [("compare", c.json value)]

end EntityQuery
