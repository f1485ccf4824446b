import EntityQuery.Schema.Projection
import EntityQuery.Selection
import EntityQuery.Sql.Condition
import EntityQuery.Store.Basic

/-! # Statements

The statement that selects the records of a selection, the one that counts them, and the one that
loads related records. Where joins could give a record several rows, the records are those whose
identifiers a subquery finds. Records come in the order asked for, nulls last, and otherwise in the
order of their identifiers. -/
namespace EntityQuery.Sql

/-- A table joined by the equality of one of its columns with a column before it. -/
structure JoinClause where
  /-- Whether a row without a partner is left out. -/
  required : Bool
  table : String
  row : Alias
  column : String
  other : ColumnRef
deriving DecidableEq

/-- The identifiers of the root rows for which the condition holds: of a row, or, if there is a
grouping, of the rows that agree on it. -/
structure Subquery where
  id : ColumnRef
  table : String
  joins : List JoinClause
  grouping : Option (List ColumnRef)
  condition : Condition

/-- Which rows of its table a statement keeps. -/
inductive Restriction where
  | all
  | rows (c : Condition)
  | identifiers (q : Subquery)

/-- What a statement gives. -/
inductive Output where
  | count
  | column (c : ColumnRef)
  /-- The key of the owner of a related record. -/
  | owner (c : ColumnRef)
deriving DecidableEq

/-- A column to sort by. -/
structure OrderTerm where
  column : ColumnRef
  direction : Direction
  nullsLast : Bool
deriving DecidableEq

/-- A statement over the rows of a table. -/
structure Statement where
  outputs : List Output
  table : String
  joins : List JoinClause
  restriction : Restriction
  order : List OrderTerm
  limit : Option Nat
  offset : Nat

/-! ## Text -/

/-- The text of a join. -/
def JoinClause.text (j : JoinClause) : String :=
  (if j.required then " JOIN " else " LEFT JOIN ") ++ quoteName j.table ++ " " ++ j.row.text ++
    " ON " ++ (ColumnRef.mk j.row j.column).text ++ " = " ++ j.other.text

/-- The text of the tables of a statement. -/
def fromText (table : String) (joins : List JoinClause) : String :=
  quoteName table ++ " r" ++ String.join (joins.map JoinClause.text)

/-- Texts with commas between them. -/
def commaText (texts : List String) : String := String.intercalate ", " texts

/-- The pieces of a subquery. -/
def Subquery.fragment (q : Subquery) : Fragment :=
  [.text ("SELECT " ++ q.id.text ++ " FROM " ++ fromText q.table q.joins)] ++
    (match q.grouping with
      | some columns =>
        [.text (" GROUP BY " ++ commaText (columns.map ColumnRef.text) ++ " HAVING ")]
      | none => [.text " WHERE "]) ++
    q.condition.fragment

/-- The pieces of a restriction. -/
def Restriction.fragment : Restriction → Fragment
  | all => []
  | rows c => [.text " WHERE "] ++ c.fragment
  | identifiers q =>
    [.text (" WHERE " ++ q.id.text ++ " IN (")] ++ q.fragment ++ [.text ")"]

/-- The name under which the key of the owner is given. -/
def ownerKey : String := "__owner"

/-- The text of an output. -/
def Output.text : Output → String
  | count => "COUNT(*)"
  | column c => c.text
  | owner c => c.text ++ " AS " ++ quoteName ownerKey

/-- The text of a column to sort by. -/
def OrderTerm.text (t : OrderTerm) : String :=
  t.column.text ++ " " ++ t.direction.keyword ++ (if t.nullsLast then " NULLS LAST" else "")

/-- The text of a sort order. -/
def orderText (order : List OrderTerm) : String :=
  if order.isEmpty then "" else " ORDER BY " ++ commaText (order.map OrderTerm.text)

/-- The text of the part of the rows that is asked for. -/
def partText (limit : Option Nat) (offset : Nat) : String :=
  (match limit with
    | some n => " LIMIT " ++ String.ofList (Decimal.text n)
    | none => "") ++
  (if offset = 0 then "" else " OFFSET " ++ String.ofList (Decimal.text offset))

/-- The pieces of a statement. -/
def Statement.fragment (q : Statement) : Fragment :=
  [.text ("SELECT " ++ commaText (q.outputs.map Output.text) ++ " FROM " ++
      fromText q.table q.joins)] ++
    q.restriction.fragment ++ [.text (orderText q.order ++ partText q.limit q.offset)]

/-- The text of a statement. -/
def Statement.text (q : Statement) : String := q.fragment.text

/-- The values that a statement is sent with. -/
def Statement.binds (q : Statement) : List Bind := q.fragment.binds

/-! ## Building statements -/

/-- The column of the identifiers of an entity whose rows are those of the statement. -/
def rootId (e : Entity) : ColumnRef := ⟨.root, e.idColumn⟩

/-- The columns that are read of the rows of an entity. -/
def outputColumns (s : Schema) (e : Entity) : Except Error (List Output) := do
  let projection ← s.projection e
  return projection.map fun p => .column ⟨.root, p.column⟩

/-- The joins by which a statement takes a step. -/
def joinClauses (s : Schema) (join : JoinNode) : Except Error (List JoinClause) := do
  let owner ← s.entity join.owner
  let a ← s.attributeOf join.owner join.attr
  let parent := Alias.ofSource join.parent
  let me := Alias.join join.id
  let ownerId : ColumnRef := ⟨parent, owner.idColumn⟩
  match a.kind with
  | .association r =>
    let target ← s.entity r.target
    match ← s.link join.owner join.attr with
    | .identity =>
      match a.foreignKeyColumn? with
      | none => throw (.schema (.noJoinColumn join.owner join.attr))
      | some column => return [⟨false, target.table, me, target.idColumn, ⟨parent, column⟩⟩]
    | .foreignKey _ column => return [⟨false, target.table, me, column, ownerId⟩]
    | .joinTable t =>
      let between := Alias.between join.id
      return [⟨false, t.table, between, t.ownerColumn, ownerId⟩,
        ⟨false, target.table, me, target.idColumn, ⟨between, t.targetColumn⟩⟩]
  | .map t => return [⟨false, t.table, me, t.ownerColumn, ownerId⟩]
  | .collection t => return [⟨false, t.table, me, t.ownerColumn, ownerId⟩]
  | .scalar _ => throw (.invalidPath (.columnNotInJoin join.path))

/-- The rows that a selection keeps; without a predicate no join is looked at. -/
def restriction (s : Schema) (e : Entity) (q : Selection) : Except Error Restriction :=
  match q.predicate with
  | none => .ok .all
  | some p =>
    if !q.needsSubquery then return .rows (← Condition.ofRow s q.joins p)
    else do
      let joins := (← q.joins.mapM (joinClauses s)).flatten
      let sub := Subquery.mk (rootId e) e.table joins
      if q.aggregate then
        let columns ← q.groupBy.mapM (columnRef s q.joins)
        return .identifiers (sub (some (rootId e :: columns)) (← Condition.ofGroup s q.joins p))
      else return .identifiers (sub none (← Condition.ofRow s q.joins p))

/-- The columns to sort by, the identifier last. -/
def orderTerms (e : Entity) (order : List OrderKey) : List OrderTerm :=
  order.map (fun k => ⟨⟨.root, k.column⟩, k.direction, true⟩) ++ [⟨rootId e, .ascending, false⟩]

namespace Statement

/-- The statement that selects the records of a selection. -/
def select (s : Schema) (q : Selection) : Except Error Statement := do
  let e ← s.entity q.entity
  return {
    outputs := ← outputColumns s e
    table := e.table
    joins := []
    restriction := ← Sql.restriction s e q
    order := orderTerms e q.order
    limit := q.limit
    offset := q.offset }

/-- The statement that counts the records of a selection. -/
def count (s : Schema) (q : Selection) : Except Error Statement := do
  let e ← s.entity q.entity
  return {
    outputs := [.count]
    table := e.table
    joins := []
    restriction := ← Sql.restriction s e q
    order := []
    limit := none
    offset := 0 }

/-- The column that ties the targets of a link to their owners. -/
def ownerColumn (target : Entity) : Link → ColumnRef
  | .identity => rootId target
  | .foreignKey _ column => ⟨.root, column⟩
  | .joinTable t => ⟨.link, t.ownerColumn⟩

/-- The statement that loads related records with the keys of their owners. -/
def related (s : Schema) (q : RelatedQuery) : Except Error Statement := do
  let target ← s.entity q.target
  let owner := ownerColumn target q.link
  let columns ← outputColumns s target
  let (joins, byOwner) : List JoinClause × List OrderTerm :=
    match q.link with
    | .joinTable t =>
      ([⟨true, t.table, .link, t.targetColumn, rootId target⟩], [⟨owner, .ascending, false⟩])
    | _ => ([], [])
  return {
    outputs := .owner owner :: columns
    table := target.table
    joins := joins
    restriction := .rows
      (if q.keys.isEmpty then .never .null
       else .anyOf (.column owner) (.parameter (.ofList q.keys)))
    order := orderTerms target q.order ++ byOwner
    limit := q.limit
    offset := q.offset }

end Statement

end EntityQuery.Sql
