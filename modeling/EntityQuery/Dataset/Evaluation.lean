import EntityQuery.Dataset.Basic
import EntityQuery.Text.Lowercase
import EntityQuery.Truth

/-! # Evaluation

A predicate is evaluated for a root record over its *bindings*: the ways to give each join a row
reached from its parent's row, a join without such a row staying empty. A record is kept if the
predicate holds at some binding or, where it applies functions, for some group of bindings that
agree on the grouping attributes. -/
namespace EntityQuery

/-- A row to which a join leads. -/
inductive Row where
  | entity (r : Record)
  | element (e : ElementRow)

/-- The row of each join, by its number. -/
abbrev Binding := List (Option Row)

/-- How the rows of a join are found. -/
inductive JoinPlan where
  | link (target : String) (l : Link)
  | elements (table : String)
deriving DecidableEq

/-- How the rows of a join are found. -/
def JoinPlan.of (s : Schema) (join : JoinNode) : Except Error JoinPlan := do
  let a ← s.attributeOf join.owner join.attr
  match join.target, a.kind with
  | .entity target, _ => return .link target (← s.link join.owner join.attr)
  | _, .map t => return .elements t.table
  | _, .collection t => return .elements t.table
  | _, _ => throw (.invalidPath (.columnNotInJoin join.path))

/-! ## Values -/

/-- What an operand stands for: a value or a list of values. -/
inductive OperandValue where
  | one (v : Value)
  | many (vs : List Value)

/-- What an operand stands for where it is not read of a row. -/
def OperandValue.ofLiteral : Operand → OperandValue
  | .literal v => one v
  | .list vs => many vs
  | _ => one .null

/-- Adds integers as long as the sum stays one of 64 bits. -/
def addWithin (sum : Int) : Value → Option Int
  | .int i =>
    let next := sum + i.toInt
    if Decimal.IsInt64 next then some next else none
  | _ => none

/-- The number that a value adds to a sum of floats. -/
def addend (v : Value) : Float := v.float?.getD 0.0

/-- The sum of values as floats. -/
def floatSum (vs : List Value) : Float := (vs.map addend).foldl (· + ·) 0.0

/-- The first of the values that is not beaten by a later one. -/
def extreme (wanted : Ordering) : List Value → Value
  | [] => .null
  | v :: vs => vs.foldl (fun best v => if v.compare best = some wanted then v else best) v

/-- What a function makes of values, nulls left out. -/
def Aggregate.apply (f : Aggregate) (values : List Value) : Value :=
  let present := values.filter (!·.isNull)
  match f with
  | .count => .int (Int64.ofNat present.length)
  | .countDistinct => .int (Int64.ofNat (present.map Value.key).eraseDups.length)
  | .sum =>
    if present.isEmpty then .null
    else
      match present.foldlM addWithin 0 with
      | some total => .int (Int64.ofInt total)
      | none => .float (floatSum present)
  | .avg =>
    if present.isEmpty then .null
    else .float (floatSum present / Decimal.ofLength present.length)
  | .max | .greatest => extreme .gt present
  | .min | .least => extreme .lt present

/-! ## Comparisons -/

/-- Whether a text occurs in another. -/
def occursIn (needle : List Char) : List Char → Bool
  | [] => needle.isEmpty
  | c :: s => needle.isPrefixOf (c :: s) || occursIn needle s

/-- Whether a pattern operator finds a text in another. -/
def Operator.findsText (o : Operator) (haystack needle : String) : Bool :=
  let fold := fun (s : String) => if o.ignoresCase then Text.lowercase s.toList else s.toList
  match o with
  | .contains | .iContains => occursIn (fold needle) (fold haystack)
  | .startsWith | .iStartsWith => (fold needle).isPrefixOf (fold haystack)
  | .endsWith | .iEndsWith => (fold needle).isSuffixOf (fold haystack)
  | _ => false

/-- Whether an operator accepts the order of its two sides. -/
def Operator.accepts : Operator → Ordering → Bool
  | eq, o => o = .eq
  | gt, o => o = .gt
  | lt, o => o = .lt
  | gte, o => o ≠ .lt
  | lte, o => o ≠ .gt
  | _, _ => false

/-- Whether two values are known to be equal. -/
def Value.equals (a b : Value) : Bool := a.compare b = some .eq

/-- Equality in which null equals null and nothing else. -/
def Value.sameOrNull (a b : Value) : Bool :=
  if a.isNull || b.isNull then a.isNull && b.isNull else a.equals b

/-- Whether a value is among others. -/
def Value.among (v : Value) (items : List Value) : Truth :=
  if items.isEmpty then .fails
  else if v.isNull then .unknown
  else .ofBool (items.any v.equals)

/-- The truth of a comparison of two values. -/
def Comparison.compareOne (c : Comparison) (left right : Value) : Truth :=
  if c.operator = .eq ∧ c.nullSafe then .ofBool (left.sameOrNull right)
  else if c.operator.isPattern then
    match left.text?, right.text? with
    | some haystack, some needle => .ofBool (c.operator.findsText haystack needle)
    | _, _ => .unknown
  else
    match left.compare right with
    | none => .unknown
    | some o => .ofBool (c.operator.accepts o)

/-- The truth of a comparison, leaving aside whether it is negated. -/
def Comparison.positive (c : Comparison) (left : Value) (right : OperandValue) : Truth :=
  match c.operator, right with
  | .isNull, _ => .ofBool left.isNull
  | .isIn, .many items => left.among items
  | _, .many _ => .unknown
  | _, .one right => c.compareOne left right

/-- The truth of a comparison of what its sides stand for. -/
def Comparison.truth (c : Comparison) (left right : OperandValue) : Truth :=
  match left with
  | .many _ => .unknown
  | .one left => if c.negate then (c.positive left right).not else c.positive left right

/-! ## Bindings -/

/-- A dataset together with the joins of a selection. -/
structure Evaluator where
  data : Dataset
  joins : Joins
  /-- How the rows of each join are found. -/
  plans : List JoinPlan

namespace Evaluator

/-- The evaluator of a selection. -/
def of (d : Dataset) (s : Schema) (q : Selection) : Except Error Evaluator := do
  return ⟨d, q.joins, ← q.joins.mapM (JoinPlan.of s)⟩

/-- The rows of a join that are reached from a record. -/
def children (ev : Evaluator) (parent : Record) (id : Nat) : List Row :=
  match ev.joins[id]?, ev.plans[id]? with
  | some join, some (.link target l) =>
    (ev.data.targetsOf target join.attr parent l).map .entity
  | _, some (.elements table) =>
    ((ev.data.elementRows table).filter (·.owner.key = parent.key)).map .element
  | _, _ => []

/-- The row of a source. -/
def row (root : Record) (b : Binding) : Source → Option Row
  | .root => some (.entity root)
  | .join id => b[id]?.join

/-- The bindings to which a binding extends along a join. -/
def extendAlong (ev : Evaluator) (root : Record) (join : JoinNode) (b : Binding) : List Binding :=
  let children :=
    match row root b join.parent with
    | some (.entity parent) => ev.children parent join.id
    | _ => []
  if children.isEmpty then [b] else children.map fun child => b.set join.id (some child)

/-- All bindings of a root record. -/
def expand (ev : Evaluator) (root : Record) : List Binding :=
  ev.joins.foldl (fun bindings join => bindings.flatMap (ev.extendAlong root join))
    [List.replicate ev.joins.length none]

/-- The value of an attribute at a binding. -/
def value (root : Record) (b : Binding) (a : AttrRef) : Value :=
  match row root b a.source, a.column with
  | some (.entity r), .attribute name _ => r.field name
  | some (.element e), .mapKey => e.key
  | some (.element e), .mapValue => e.value
  | some (.element e), .element => e.value
  | _, _ => .null

/-! ## Truth -/

/-- What an operand stands for at a binding. -/
def rowOperand (root : Record) (b : Binding) : Operand → OperandValue
  | .attr a => .one (value root b a)
  | .aggregate _ a => .one (value root b a)
  | o => .ofLiteral o

/-- The truth of a predicate at a binding. -/
def rowTruth (root : Record) (b : Binding) : Predicate → Truth
  | .and p q => (rowTruth root b p).and (rowTruth root b q)
  | .or p q => (rowTruth root b p).or (rowTruth root b q)
  | .not p => (rowTruth root b p).not
  | .leaf c => c.truth (rowOperand root b c.left) (rowOperand root b c.right)

/-- What an operand stands for in a group; an attribute is the same throughout. -/
def groupOperand (root : Record) (group : List Binding) : Operand → OperandValue
  | .aggregate f a => .one (f.apply (group.map fun b => value root b a))
  | .attr a => .one ((group.head?.map fun b => value root b a).getD .null)
  | o => .ofLiteral o

/-- The truth of a predicate in a group. -/
def groupTruth (root : Record) (group : List Binding) (p : Predicate) : Truth :=
  if p.isAggregate then
    match p with
    | .and p q => (groupTruth root group p).and (groupTruth root group q)
    | .or p q => (groupTruth root group p).or (groupTruth root group q)
    | .not p => (groupTruth root group p).not
    | .leaf c => c.truth (groupOperand root group c.left) (groupOperand root group c.right)
  else .any (group.map fun b => rowTruth root b p)

/-- The keys of the grouping attributes at a binding. -/
def groupKey (root : Record) (groupBy : List AttrRef) (b : Binding) : List String :=
  groupBy.map fun a => (value root b a).key

/-- The bindings in groups that agree on the grouping attributes. -/
def groups (root : Record) (groupBy : List AttrRef) (bindings : List Binding) :
    List (List Binding) :=
  let keys := (bindings.map (groupKey root groupBy)).eraseDups
  keys.map fun key => bindings.filter (groupKey root groupBy · = key)

/-- Whether a record is kept. -/
def keeps (ev : Evaluator) (q : Selection) (root : Record) : Bool :=
  match q.predicate with
  | none => true
  | some p =>
    let bindings := ev.expand root
    if q.aggregate then
      (groups root q.groupBy bindings).any fun group => groupTruth root group p = .holds
    else bindings.any fun b => rowTruth root b p = .holds

end Evaluator

end EntityQuery
