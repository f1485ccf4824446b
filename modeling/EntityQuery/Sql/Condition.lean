import EntityQuery.Filter.Predicate
import EntityQuery.Sql.Fragment
import EntityQuery.Text.Lowercase

/-! # Conditions

A condition is what stands in a statement for a predicate: of a single row, or of a group of rows.
In a condition of groups, a part of the predicate that applies no function holds of a group if it
holds of some row in it. -/
namespace EntityQuery.Sql

/-- An expression for a value. -/
inductive Term where
  | column (c : ColumnRef)
  | aggregate (f : Aggregate) (c : ColumnRef)
  | parameter (b : Bind)
  | null

/-- A pattern that texts are matched with. -/
inductive Pattern where
  /-- A pattern that is sent as a value. -/
  | text (s : String)
  /-- The value of a term, with anything before it or after it. -/
  | term (t : Term) (anyBefore anyAfter : Bool)

/-- A comparison of two values. -/
inductive Relation where
  | eq
  | gt
  | lt
  | gte
  | lte
deriving DecidableEq, Repr

/-- A condition of a row or of a group of rows. -/
inductive Condition where
  | isNull (t : Term)
  /-- Never holds; the values of the term are sent all the same. -/
  | never (t : Term)
  | anyOf (t array : Term)
  /-- Equality in which null equals null. -/
  | notDistinct (a b : Term)
  | like (ignoreCase : Bool) (t : Term) (pattern : Pattern)
  | compare (r : Relation) (a b : Term)
  | not (c : Condition)
  | and (a b : Condition)
  | or (a b : Condition)
  /-- The condition holds of some row of the group. -/
  | someRow (c : Condition)

/-! ## Text -/

/-- A function applied to the text of a column. -/
def callText (f : Aggregate) (column : String) : String :=
  match f with
  | .count => "COUNT(" ++ column ++ ")"
  | .countDistinct => "COUNT(DISTINCT " ++ column ++ ")"
  | .avg => "AVG(" ++ column ++ ")"
  | .sum => "SUM(" ++ column ++ ")"
  | .max | .greatest => "MAX(" ++ column ++ ")"
  | .min | .least => "MIN(" ++ column ++ ")"

/-- The pieces of a term. -/
def Term.fragment : Term → Fragment
  | column c => [.text c.text]
  | aggregate f c => [.text (callText f c.text)]
  | parameter b => [.placeholder b]
  | null => [.text "NULL"]

/-- The pieces of a term in which case does not count. -/
def lowered (ignoreCase : Bool) (f : Fragment) : Fragment :=
  if ignoreCase then [.text "lower("] ++ f ++ [.text ")"] else f

/-- The pieces of a pattern. -/
def Pattern.fragment (ignoreCase : Bool) : Pattern → Fragment
  | text s => [.placeholder (.scalar (.text s))]
  | term t anyBefore anyAfter =>
    (if anyBefore then [.text "'%' || "] else []) ++ lowered ignoreCase t.fragment ++
      (if anyAfter then [.text " || '%'"] else [])

/-- The text of a relation. -/
def Relation.text : Relation → String
  | eq => "="
  | gt => ">"
  | lt => "<"
  | gte => ">="
  | lte => "<="

namespace Condition

/-- The pieces of a condition. -/
def fragment : Condition → Fragment
  | isNull t => t.fragment ++ [.text " IS NULL"]
  | never t => t.fragment.hidden ++ [.text "FALSE"]
  | anyOf t array => t.fragment ++ [.text " = ANY("] ++ array.fragment ++ [.text ")"]
  | notDistinct a b => a.fragment ++ [.text " IS NOT DISTINCT FROM "] ++ b.fragment
  | like ignoreCase t pattern =>
    lowered ignoreCase t.fragment ++ [.text " LIKE "] ++ pattern.fragment ignoreCase ++
      [.text " ESCAPE '\\'"]
  | compare r a b => a.fragment ++ [.text (" " ++ r.text ++ " ")] ++ b.fragment
  | not c => [.text "NOT ("] ++ c.fragment ++ [.text ")"]
  | and a b => [.text "("] ++ a.fragment ++ [.text " AND "] ++ b.fragment ++ [.text ")"]
  | or a b => [.text "("] ++ a.fragment ++ [.text " OR "] ++ b.fragment ++ [.text ")"]
  | someRow c => [.text "BOOL_OR("] ++ c.fragment ++ [.text ")"]

end Condition

/-! ## Conditions of predicates -/

/-- A character of a text that is to be found as it stands. -/
def escapePatternChar (c : Char) : List Char :=
  if c = '\\' ∨ c = '%' ∨ c = '_' then ['\\', c] else [c]

/-- The pattern that only this text matches. -/
def escapePattern (s : String) : String := String.ofList (s.toList.flatMap escapePatternChar)

/-- Whether the operator allows anything before the text it looks for. -/
def anyBefore : Operator → Bool
  | .startsWith | .iStartsWith => false
  | _ => true

/-- Whether the operator allows anything after the text it looks for. -/
def anyAfter : Operator → Bool
  | .contains | .iContains | .startsWith | .iStartsWith => true
  | _ => false

/-- The pattern by which an operator looks for a text. -/
def literalPattern (operator : Operator) (needle : String) : String :=
  let escaped := escapePattern needle
  (if anyBefore operator then "%" else "") ++
    (if operator.ignoresCase then Text.lowercaseString escaped else escaped) ++
    (if anyAfter operator then "%" else "")

/-- The relation that an operator stands for. -/
def Relation.ofOperator : Operator → Relation
  | .gt => gt
  | .lt => lt
  | .gte => gte
  | .lte => lte
  | _ => eq

/-- The name of a column that only the row of a join can have. -/
def columnLabel : Column → String
  | .attribute name _ => name
  | .mapKey => "MapKey"
  | .mapValue => "MapValue"
  | .element => "Element"

/-- The column of the table of a map or a collection. -/
def elementColumn (s : Schema) (join : JoinNode) (column : Column) : Except Error String := do
  let a ← s.attributeOf join.owner join.attr
  match a.kind, column with
  | .map t, .mapKey => return t.keyColumn
  | .map t, .mapValue => return t.valueColumn
  | .collection t, .element => return t.valueColumn
  | _, _ => throw (.invalidPath (.columnNotInJoin join.path))

/-- The column in which an attribute is read. -/
def columnRef (s : Schema) (joins : Joins) (a : AttrRef) : Except Error ColumnRef :=
  match a.column, a.source with
  | .attribute _ column, source => .ok ⟨.ofSource source, column⟩
  | column, .root => .error (.invalidPath (.elementOutsideJoin (columnLabel column)))
  | column, .join id =>
    match joins[id]? with
    | none => .error (.invalidPath (.elementOutsideJoin (columnLabel column)))
    | some join => do return ⟨.join id, ← elementColumn s join column⟩

/-- The term of an operand. -/
def Term.ofOperand (s : Schema) (joins : Joins) : Operand → Except Error Term
  | .attr a => return .column (← columnRef s joins a)
  | .aggregate f a => return .aggregate f (← columnRef s joins a)
  | .literal v => .ok (.parameter (.scalar v))
  | .list vs => .ok (.parameter (.ofList vs))
  | .none => .ok .null

/-- The pattern of the right side of a comparison. -/
def Pattern.ofOperand (s : Schema) (joins : Joins) (operator : Operator) :
    Operand → Except Error Pattern
  | .literal v => .ok (.text (literalPattern operator (v.text?.getD "")))
  | right => return .term (← Term.ofOperand s joins right) (anyBefore operator) (anyAfter operator)

namespace Condition

/-- The condition of a comparison, leaving aside whether it is negated. -/
def ofPositive (s : Schema) (joins : Joins) (c : Comparison) : Except Error Condition := do
  let left ← Term.ofOperand s joins c.left
  let right := Term.ofOperand s joins c.right
  match c.operator, c.right with
  | .isNull, _ => return .isNull left
  | .isIn, .list [] => return .never left
  | .isIn, _ => return .anyOf left (← right)
  | operator, _ =>
    if operator = .eq ∧ c.nullSafe then return .notDistinct left (← right)
    else if operator.isPattern then
      return .like operator.ignoresCase left (← Pattern.ofOperand s joins operator c.right)
    else return .compare (.ofOperator operator) left (← right)

/-- The condition of a comparison. -/
def ofComparison (s : Schema) (joins : Joins) (c : Comparison) : Except Error Condition := do
  let condition ← ofPositive s joins c
  return if c.negate then .not condition else condition

/-- The condition that a predicate sets to a row. -/
def ofRow (s : Schema) (joins : Joins) : Predicate → Except Error Condition
  | .and a b => return .and (← ofRow s joins a) (← ofRow s joins b)
  | .or a b => return .or (← ofRow s joins a) (← ofRow s joins b)
  | .not a => return .not (← ofRow s joins a)
  | .leaf c => ofComparison s joins c

/-- The condition that a predicate sets to a group of rows. -/
def ofGroup (s : Schema) (joins : Joins) (p : Predicate) : Except Error Condition :=
  if p.isAggregate then
    match p with
    | .and a b => return .and (← ofGroup s joins a) (← ofGroup s joins b)
    | .or a b => return .or (← ofGroup s joins a) (← ofGroup s joins b)
    | .not a => return .not (← ofGroup s joins a)
    | .leaf c => ofComparison s joins c
  else return .someRow (← ofRow s joins p)

end Condition

end EntityQuery.Sql
