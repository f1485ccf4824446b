import EntityQuery.Coercion
import EntityQuery.Filter.Combination
import EntityQuery.Filter.Expression
import EntityQuery.Filter.Predicate

/-! # Compiling filters

A filter becomes a predicate once its paths are resolved, its operators are checked against the
types of what they compare, and its literals are read. The joins that its paths need come with it.
A predicate that applies a function anywhere speaks of groups of rows; the attributes that it
compares with functions then have to be the same throughout a group. -/
namespace EntityQuery

/-- Counting members of an association counts each of them once. -/
def Aggregate.countingMembers (f : Aggregate) (identifier : Bool) : Aggregate :=
  if f = .count ∧ identifier then .countDistinct else f

namespace Expression

/-- The error that the operator cannot be used here. -/
def unsupported (e : Expression) : Error := .unsupportedOperator e.operator.name e.attr

/-- A path, inside a function or by itself, as an operand with its type. -/
def operand (s : Schema) (root path : String) (function : Option Aggregate) :
    Resolving (Operand × ScalarType) := do
  let resolved ← s.resolve root path
  match function with
  | none => return (.attr resolved.attr, resolved.type)
  | some f =>
    let type ← f.resultType path resolved.type
    return (.aggregate (f.countingMembers resolved.identifier) resolved.attr, type)

/-- Whether values of the two types can be compared. -/
def comparable (a b : ScalarType) : Bool := a = b || a.isNumeric && b.isNumeric

/-- The operand on the right of a path of type `type`, and whether the comparison is negated. -/
def rightOperand (s : Schema) (root : String) (type : ScalarType) (e : Expression) :
    Resolving (Operand × Bool) :=
  match e.operator, e.right with
  | .isNull, .literal raw => do
    let wanted ← ScalarType.boolean.coerce e.attr raw
    return (.none, (wanted == .bool true) == e.negate)
  | .isNull, _ => throw e.unsupported
  | .isIn, .list items => do
    let values ← items.mapM fun raw => type.coerce e.attr raw
    return (.list values, e.negate)
  | .isIn, .literal raw => do
    let v ← type.coerce e.attr raw
    return (.list [v], e.negate)
  | _, .list _ => throw e.unsupported
  | .isIn, .path _ _ => throw e.unsupported
  | _, .literal raw => do
    let v ← type.coerce e.attr raw
    return (.literal v, e.negate)
  | operator, .path path function => do
    let (right, rightType) ← operand s root path function
    if !comparable rightType type then throw (.typeCoercion e.attr path type)
    if operator.isPattern && rightType ≠ .text then throw e.unsupported
    return (right, e.negate)

/-- The comparison that an expression makes; with `nullSafe`, null equals null where two
attributes are compared. -/
def compile (s : Schema) (root : String) (nullSafe : Bool) (e : Expression) :
    Resolving Comparison := do
  let (left, type) ← operand s root e.attr e.function
  if e.operator.isPattern && type ≠ .text then throw e.unsupported
  let (right, negate) ← rightOperand s root type e
  return {
    left := left
    operator := e.operator
    negate := negate
    nullSafe := nullSafe && e.operator = .eq && left.attr?.isSome && right.attr?.isSome
    right := right }

end Expression

/-- A predicate with the joins that it needs. -/
structure CompiledFilter where
  predicate : Option Predicate
  joins : Joins
  /-- Whether the predicate speaks of groups of rows. -/
  aggregate : Bool
  /-- The attributes by which rows are grouped besides the root. -/
  groupBy : List AttrRef

namespace CompiledFilter

/-- The filter that keeps everything. -/
def empty : CompiledFilter := ⟨none, [], false, []⟩

/-- A predicate with the joins that its paths have entered. -/
def ofPredicate (predicate : Option Predicate) (joins : Joins) : CompiledFilter :=
  let aggregate := predicate.any Predicate.isAggregate
  { predicate := predicate
    joins := joins
    aggregate := aggregate
    groupBy :=
      match predicate with
      | some p => if aggregate then p.groupingAttributes else []
      | none => [] }

/-- The JSON form of a compiled filter. -/
def json (value : Value → Json) (f : CompiledFilter) : Json :=
  .object [("predicate", .ofOption (Predicate.json value) f.predicate),
    ("joins", .list (f.joins.map JoinNode.json)), ("aggregate", .bool f.aggregate),
    ("group_by", .list (f.groupBy.map AttrRef.json))]

end CompiledFilter

namespace Schema

/-- The comparison that a word of a filter of `root` makes. -/
def compileWord (s : Schema) (root : String) (nullSafe : Bool) (w : Word) :
    Resolving Comparison := do
  (← Expression.parse w).compile s root nullSafe

/-- Compiles a filter of the records of an entity. -/
def compileFilter (s : Schema) (nullSafe : Bool) (filter entity : String) :
    Except Error CompiledFilter := do
  let _ ← s.entity entity
  let tokens ← scan filter
  let (predicate, joins) := (Formula.ofTokens (s.compileWord entity nullSafe) tokens).run []
  return .ofPredicate (← predicate) joins

end Schema

end EntityQuery
