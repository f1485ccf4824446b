import EntityQuery.Error

/-! # Schemas

A schema describes the entities that requests may speak of. An entity is stored in a table and has
attributes: scalars, associations with another entity, maps and collections of scalars. An
association is followed through a column of its own table, a column of the target's table or a
table between the two; the side that names that storage is the owning one. -/
namespace EntityQuery

/-- How many entities stand at the two ends of an association. -/
inductive RelationKind where
  | manyToOne
  | oneToOne
  | oneToMany
  | manyToMany
deriving DecidableEq, Repr

namespace RelationKind

/-- Whether an owner may have several targets. -/
def isToMany : RelationKind → Bool
  | oneToMany | manyToMany => true
  | manyToOne | oneToOne => false

/-- The kind of the same association, seen from its other end. -/
def opposite : RelationKind → RelationKind
  | manyToOne => oneToMany
  | oneToMany => manyToOne
  | oneToOne => oneToOne
  | manyToMany => manyToMany

/-- The kind that a schema document names. -/
def ofName? : String → Option RelationKind
  | "many_to_one" => some manyToOne
  | "one_to_one" => some oneToOne
  | "one_to_many" => some oneToMany
  | "many_to_many" => some manyToMany
  | _ => none

@[simp] theorem opposite_opposite (k : RelationKind) : k.opposite.opposite = k := by
  cases k <;> rfl

end RelationKind

/-- A table between two entities, seen from one of them. -/
structure JoinTable where
  table : String
  /-- The column with the identifier of the side it is seen from. -/
  ownerColumn : String
  /-- The column with the identifier of the other side. -/
  targetColumn : String
deriving DecidableEq

/-- The same table, seen from the other side. -/
def JoinTable.flipped (t : JoinTable) : JoinTable :=
  { t with ownerColumn := t.targetColumn, targetColumn := t.ownerColumn }

@[simp] theorem JoinTable.flipped_flipped (t : JoinTable) : t.flipped.flipped = t := rfl

/-- An association with another entity. -/
structure Association where
  kind : RelationKind
  target : String
  /-- The attribute of the target that leads back, where it is declared. -/
  inverse : Option String
  /-- Whether this side names the storage. -/
  owning : Bool
  joinColumn : Option String
  joinTable : Option JoinTable
deriving DecidableEq

/-- Whether this side keeps the identifier of its one target. -/
def Association.isReference (a : Association) : Bool := a.owning && !a.kind.isToMany

/-- A map from scalars to scalars, stored in a table of its own. -/
structure MapTable where
  table : String
  ownerColumn : String
  keyColumn : String
  valueColumn : String
  keyType : ScalarType
  valueType : ScalarType
deriving DecidableEq

/-- A collection of scalars, stored in a table of its own. -/
structure CollectionTable where
  table : String
  ownerColumn : String
  valueColumn : String
  elementType : ScalarType
deriving DecidableEq

/-- What an attribute is. -/
inductive AttributeKind where
  | scalar (type : ScalarType)
  | association (a : Association)
  | map (t : MapTable)
  | collection (t : CollectionTable)
deriving DecidableEq

/-- An attribute of an entity. -/
structure Attribute where
  name : String
  column : String
  nullable : Bool
  kind : AttributeKind
deriving DecidableEq

namespace Attribute

/-- The type of a scalar attribute. -/
def scalarType? (a : Attribute) : Option ScalarType :=
  match a.kind with
  | .scalar type => some type
  | _ => none

/-- The association, if the attribute is one. -/
def association? (a : Attribute) : Option Association :=
  match a.kind with
  | .association r => some r
  | _ => none

/-- The column of the entity's own table in which the identifier of the target stands. -/
def foreignKeyColumn? (a : Attribute) : Option String :=
  match a.association? with
  | some r => if r.isReference then r.joinColumn else none
  | none => none

end Attribute

/-- An entity, its attributes in the order of their declaration. -/
structure Entity where
  name : String
  table : String
  /-- The name of the attribute that identifies the records of the entity. -/
  id : String
  attributes : List Attribute
deriving DecidableEq

namespace Entity

/-- The attribute of this name. -/
def attribute? (e : Entity) (name : String) : Option Attribute :=
  e.attributes.find? (·.name = name)

/-- The attribute that identifies the records; an integer where none is declared. -/
def idAttribute (e : Entity) : Attribute :=
  (e.attribute? e.id).getD ⟨e.id, e.id, false, .scalar .integer⟩

/-- The type of the identifiers. -/
def idType (e : Entity) : ScalarType := e.idAttribute.scalarType?.getD .integer

/-- The column of the identifiers. -/
def idColumn (e : Entity) : String := e.idAttribute.column

/-- The scalar attributes. -/
def scalars (e : Entity) : List Attribute := e.attributes.filter (·.scalarType?.isSome)

/-- The associations whose target is kept in the entity's own table. -/
def references (e : Entity) : List Attribute := e.attributes.filter (·.foreignKeyColumn?.isSome)

/-- The error of naming an attribute that the entity does not have. -/
def noAttribute (e : Entity) (name : String) : Error := .attributeNotFound e.name name

end Entity

/-- The entities that requests may speak of. -/
structure Schema where
  entities : List Entity
deriving DecidableEq

namespace Schema

/-- The entity of this name. -/
def entity? (s : Schema) (name : String) : Option Entity := s.entities.find? (·.name = name)

/-- The entity of this name, or the error that there is none. -/
def entity (s : Schema) (name : String) : Except Error Entity :=
  match s.entity? name with
  | some e => .ok e
  | none => .error (.unknownEntity name)

/-- The attribute of this name. -/
def attributeOf (s : Schema) (entity attr : String) : Except Error Attribute := do
  match (← s.entity entity).attribute? attr with
  | some a => .ok a
  | none => .error (.attributeNotFound entity attr)

/-- The association of this name. -/
def association (s : Schema) (entity attr : String) : Except Error Association := do
  match (← s.attributeOf entity attr).association? with
  | some r => .ok r
  | none => .error (.invalidPath (.attributeNotAssociation entity attr))

end Schema

end EntityQuery
