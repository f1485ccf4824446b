import EntityQuery.Json.Basic
import EntityQuery.Schema.Basic

/-! # Links

A link says how the targets of an association are matched with their owners: by an identifier that
the owner keeps, by an identifier of the owner that the target keeps, or by pairs of identifiers in
a table between them. The last two may have to be read off the association that leads back from
the target, and that one is searched for where it is not declared. -/
namespace EntityQuery

/-- How the targets of an association are matched with their owners. -/
inductive Link where
  /-- The owner keeps the identifier of its target. -/
  | identity
  /-- The target keeps the identifier of its owner, as this attribute and in this column. -/
  | foreignKey (attr column : String)
  /-- A table keeps pairs of identifiers. -/
  | joinTable (t : JoinTable)
deriving DecidableEq

namespace Schema

/-- The attributes of the target that could lead back: associations with `owner` of the opposite
kind, other than the association itself. -/
def backCandidates (owner attr : String) (kind : RelationKind) (target : Entity) :
    List Attribute :=
  target.attributes.filter fun a =>
    match a.association? with
    | some r =>
      r.target = owner && r.kind = kind.opposite && !(target.name = owner && a.name = attr)
    | none => false

/-- The attribute of the target that leads back to `owner`. A declared inverse must reference
`owner`; without one there must be exactly one candidate. -/
def backReference (s : Schema) (owner attr : String) : Except Error Attribute := do
  let r ← s.association owner attr
  let target ← s.entity r.target
  match r.inverse with
  | some inverse =>
    match target.attribute? inverse with
    | none => .error (target.noAttribute inverse)
    | some back =>
      if back.association?.any (·.target = owner) then .ok back
      else .error (.schema (.inverseElsewhere target.name inverse owner attr))
  | none =>
    match backCandidates owner attr r.kind target with
    | [back] => .ok back
    | [] => .error (.missingBackReference owner attr)
    | several => .error (.ambiguousBackReference owner attr (several.map (·.name)))

/-- The table between the two ends of a many-to-many association, seen from `owner`. -/
def joinTable (s : Schema) (owner attr : String) : Except Error JoinTable := do
  let r ← s.association owner attr
  if r.kind ≠ .manyToMany then
    .error (.invalidPath (.attributeNotManyToMany owner attr))
  else
    match r.joinTable with
    | some t => .ok t
    | none =>
      let back ← s.backReference owner attr
      match back.association?.bind (·.joinTable) with
      | some t => .ok t.flipped
      | none => .error (.schema (.noJoinTable owner attr))

/-- The column of the target's table that references `owner`. -/
def inverseJoinColumn (s : Schema) (owner attr : String) : Except Error String := do
  let back ← s.backReference owner attr
  match back.foreignKeyColumn? with
  | some column => .ok column
  | none =>
    let r ← s.association owner attr
    .error (.schema (.backReferenceWithoutColumn r.target back.name owner attr))

/-- The link of an association. -/
def link (s : Schema) (owner attr : String) : Except Error Link := do
  let r ← s.association owner attr
  match r.kind with
  | .manyToOne => .ok .identity
  | .manyToMany => return .joinTable (← s.joinTable owner attr)
  | .oneToOne | .oneToMany =>
    if r.isReference then .ok .identity
    else
      let back ← s.backReference owner attr
      return .foreignKey back.name (← s.inverseJoinColumn owner attr)

end Schema

/-- The JSON form of a join table. -/
def JoinTable.json (t : JoinTable) : Json :=
  .object [("table", .text t.table), ("owner_column", .text t.ownerColumn),
    ("target_column", .text t.targetColumn)]

/-- The JSON form of a link. -/
def Link.json : Link → Json
  | identity => .text "identity"
  | foreignKey attr column =>
    .object [("foreign_key", .object [("attribute", .text attr), ("column", .text column)])]
  | joinTable t => .object [("join_table", t.json)]

end EntityQuery
