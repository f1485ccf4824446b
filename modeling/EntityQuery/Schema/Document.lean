import EntityQuery.Json.Reader
import EntityQuery.Schema.Declaration

/-! # Schema documents

A schema can be given as a JSON document. A record of the document is an object whose members may
come in any order, or a list of all its fields in order. A member that the record does not know is
passed over: it has to be well formed, whether or not it stands for something. A field that may be
left out may also be null, except where it has a value of its own to fall back on. A name from a
fixed set is a text, or an object with that name and null. -/
namespace EntityQuery.Schema.Document

/-- What the document gives for the fields of a record. -/
abbrev Fields := List (String × Json.Source)

/-- The fields among `names` that a JSON value gives; in a list only those in `defaulted` may be
missing, and they stand last. -/
def fields? (names defaulted : List String) : Json.Source → Option Fields
  | .object members => do
    let members ← members.mapM fun p => (Json.unescape? p.1).map fun name => (name, p.2)
    let known := members.filter (·.1 ∈ names)
    if (known.map (·.1)).Nodup then some known else none
  | .list items =>
    if items.length ≤ names.length ∧ (names.drop items.length).all (· ∈ defaulted) then
      some (names.zip items)
    else none
  | _ => none

/-- The field of this name, if the document gives it. -/
def given? (fields : Fields) (name : String) : Option Json.Source := fields.lookup name

/-- A text. -/
def text? : Json.Source → Option String
  | .text written => Json.unescape? written
  | _ => none

/-- A truth value. -/
def bool? : Json.Source → Option Bool
  | .bool b => some b
  | _ => none

/-- The items of a list. -/
def list? : Json.Source → Option (List Json.Source)
  | .list items => some items
  | _ => none

/-- A name from a fixed set. -/
def choice? {α : Type} (ofName? : String → Option α) : Json.Source → Option α
  | .text written => (Json.unescape? written).bind ofName?
  | .object [(written, .null)] => (Json.unescape? written).bind ofName?
  | _ => none

/-- A field that has to be given. -/
def required? {α : Type} (fields : Fields) (name : String) (decode : Json.Source → Option α) :
    Option α :=
  (given? fields name).bind decode

/-- A field that may be left out or null. -/
def optional? {α : Type} (fields : Fields) (name : String) (decode : Json.Source → Option α) :
    Option (Option α) :=
  match given? fields name with
  | none | some .null => some none
  | some j => (decode j).map some

/-- A field with a value to fall back on where it is left out. -/
def defaulted? {α : Type} (fields : Fields) (name : String) (value : α)
    (decode : Json.Source → Option α) : Option α :=
  match given? fields name with
  | none => some value
  | some j => decode j

/-- How a map is described. -/
structure MapEntry where
  keyType : ScalarType
  valueType : ScalarType
  table : Option String
  ownerColumn : Option String

/-- How a collection is described. -/
structure CollectionEntry where
  elementType : ScalarType
  table : Option String
  ownerColumn : Option String

/-- How an attribute is described. -/
structure AttributeEntry where
  name : String
  type : Option ScalarType
  column : Option String
  notNull : Bool
  relation : Option RelationKind
  target : Option String
  inverse : Option String
  mappedBy : Option String
  joinColumn : Option String
  joinTable : Option JoinTable
  map : Option MapEntry
  collection : Option CollectionEntry

/-- How an entity is described. -/
structure EntityEntry where
  name : String
  table : Option String
  id : String
  idType : ScalarType
  attributes : List AttributeEntry

/-- Reads the description of a table between two entities. -/
def joinTable? (j : Json.Source) : Option JoinTable := do
  let f ← fields? ["table", "owner_column", "target_column"] [] j
  some {
    table := ← required? f "table" text?
    ownerColumn := ← required? f "owner_column" text?
    targetColumn := ← required? f "target_column" text? }

/-- Reads the description of a map. -/
def map? (j : Json.Source) : Option MapEntry := do
  let f ← fields? ["key_type", "value_type", "table", "owner_column"] [] j
  some {
    keyType := ← required? f "key_type" (choice? ScalarType.ofName?)
    valueType := ← required? f "value_type" (choice? ScalarType.ofName?)
    table := ← optional? f "table" text?
    ownerColumn := ← optional? f "owner_column" text? }

/-- Reads the description of a collection. -/
def collection? (j : Json.Source) : Option CollectionEntry := do
  let f ← fields? ["element_type", "table", "owner_column"] [] j
  some {
    elementType := ← required? f "element_type" (choice? ScalarType.ofName?)
    table := ← optional? f "table" text?
    ownerColumn := ← optional? f "owner_column" text? }

/-- The fields of an attribute, in order. -/
def attributeFields : List String :=
  ["name", "type", "column", "not_null", "relation", "target", "inverse", "mapped_by",
   "join_column", "join_table", "map", "collection"]

/-- Reads the description of an attribute. -/
def attribute? (j : Json.Source) : Option AttributeEntry := do
  let f ← fields? attributeFields [] j
  some {
    name := ← required? f "name" text?
    type := ← optional? f "type" (choice? ScalarType.ofName?)
    column := ← optional? f "column" text?
    notNull := ← defaulted? f "not_null" false bool?
    relation := ← optional? f "relation" (choice? RelationKind.ofName?)
    target := ← optional? f "target" text?
    inverse := ← optional? f "inverse" text?
    mappedBy := ← optional? f "mapped_by" text?
    joinColumn := ← optional? f "join_column" text?
    joinTable := ← optional? f "join_table" joinTable?
    map := ← optional? f "map" map?
    collection := ← optional? f "collection" collection? }

/-- Reads the description of an entity. -/
def entity? (j : Json.Source) : Option EntityEntry := do
  let f ← fields? ["name", "table", "id", "attributes"] ["attributes"] j
  let id ← (given? f "id").bind (fields? ["name", "type"] [])
  some {
    name := ← required? f "name" text?
    table := ← optional? f "table" text?
    id := ← required? id "name" text?
    idType := ← required? id "type" (choice? ScalarType.ofName?)
    attributes := ← (← defaulted? f "attributes" [] list?).mapM attribute? }

/-- Reads the description of a schema. -/
def entities? (j : Json.Source) : Option (List EntityEntry) := do
  let f ← fields? ["entities"] [] j
  (← required? f "entities" list?).mapM entity?

/-- The table of a map or collection counts only if its owner column is given too. -/
def elementTable (table ownerColumn : Option String) : List Declaration :=
  match table, ownerColumn with
  | some t, some o => [.elementTable t o]
  | _, _ => []

/-- What an attribute is, by the first of its fields that says so: `relation`, `map`,
`collection`, `type`. -/
def AttributeEntry.kindDeclarations (entity : String) (a : AttributeEntry) :
    Except SchemaFault (List Declaration) :=
  match a.relation, a.map, a.collection with
  | some kind, _, _ =>
    match a.target with
    | none => .error (.noTarget entity a.name)
    | some target =>
      .ok (.association a.name kind target :: (a.inverse.map .inverse).toList ++
        (a.mappedBy.map .mappedBy).toList ++ (a.joinColumn.map .joinColumn).toList ++
        (a.joinTable.map .joinTable).toList)
  | none, some m, _ =>
    .ok (.map a.name m.keyType m.valueType :: elementTable m.table m.ownerColumn)
  | none, none, some c =>
    .ok (.collection a.name c.elementType :: elementTable c.table c.ownerColumn)
  | none, none, none =>
    match a.type with
    | none => .error (.noType entity a.name)
    | some type => .ok (.scalar a.name type :: (a.column.map .column).toList)

/-- The declarations of an attribute. -/
def AttributeEntry.declarations (entity : String) (a : AttributeEntry) :
    Except SchemaFault (List Declaration) := do
  return (← a.kindDeclarations entity) ++ (if a.notNull then [.notNull] else [])

/-- The declarations of an entity; its table is its name in lower case unless given. -/
def EntityEntry.declaration (e : EntityEntry) : Except SchemaFault EntityDeclaration := do
  let attributes ← e.attributes.mapM (AttributeEntry.declarations e.name)
  return {
    name := e.name
    table := e.table.getD (String.ofList (Text.asciiLower e.name.toList))
    declarations := .id e.id e.idType :: attributes.flatten }

end Document

/-- Reads a schema from a JSON document. -/
def ofDocument (source : String) : Except SchemaFault Schema := do
  match Json.Source.read? source with
  | none => .error (.invalidDocument "not a JSON text")
  | some j =>
    match Document.entities? j with
    | none => .error (.invalidDocument "not the description of a schema")
    | some entities => declare (← entities.mapM Document.EntityEntry.declaration)

end EntityQuery.Schema
