import EntityQuery.Schema.Basic

/-! # Projections

What is read of a stored row: the scalars of its entity, then the identifiers of the targets that
its own table keeps. -/
namespace EntityQuery

/-- A column that is read of a row. -/
structure Projected where
  name : String
  column : String
  type : ScalarType
  /-- Whether the column holds the identifier of a target. -/
  reference : Bool
deriving DecidableEq

namespace Schema

/-- The column of a scalar attribute. -/
def scalarColumn (a : Attribute) : Projected := ⟨a.name, a.column, a.scalarType?.getD .text, false⟩

/-- The column in which an attribute keeps the identifier of its target, if it does. -/
def referenceColumn (s : Schema) (a : Attribute) : Except Error (Option Projected) :=
  match a.association?, a.foreignKeyColumn? with
  | some r, some column => do
    let target ← s.entity r.target
    return some ⟨a.name, column, target.idType, true⟩
  | _, _ => .ok none

/-- The columns read of the rows of an entity. -/
def projection (s : Schema) (e : Entity) : Except Error (List Projected) := do
  let references ← e.references.mapM s.referenceColumn
  return e.scalars.map scalarColumn ++ references.filterMap id

end Schema

end EntityQuery
