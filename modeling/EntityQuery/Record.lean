import EntityQuery.Coercion
import EntityQuery.Directory

/-! # Records

A record is a row read from a store: the values of its scalar attributes, the identifiers of the
targets that it keeps, and the records that have been loaded through its associations. In JSON the
loaded records stand beside the values, under the names of their associations, and in place of a
value of the same name. -/
namespace EntityQuery

/-- What has been loaded through an association: at most one record, or any number. -/
inductive Loaded (α : Type) where
  | one (r : Option α)
  | many (rs : List α)

namespace Loaded

variable {α β : Type}

/-- The records that have been loaded. -/
def records : Loaded α → List α
  | one r => r.toList
  | many rs => rs

/-- The records through an association to many, or the first of them. -/
def ofRecords (toMany : Bool) (rs : List α) : Loaded α :=
  if toMany then many rs else one rs.head?

end Loaded

/-- A row with the records loaded through its associations. -/
structure Record where
  entity : String
  id : Value
  /-- The values of the scalar attributes, by name. -/
  fields : Directory Value
  /-- The identifiers of targets that the row keeps, by association. -/
  references : Directory Value
  /-- What has been loaded, by association. -/
  relations : List (String × Loaded Record)

namespace Record

/-- A record of which only the identifier is known. -/
def new (entity idName : String) (id : Value) : Record :=
  ⟨entity, id, [(idName, id)], [], []⟩

/-- The key by which the record is known. -/
def key (r : Record) : String := r.id.key

/-- The value of an attribute; null if there is none. -/
def field (r : Record) (name : String) : Value := (r.fields.at? name).getD .null

/-- The identifier kept for an association; null if there is none. -/
def reference (r : Record) (attr : String) : Value := (r.references.at? attr).getD .null

/-- What has been loaded through an association. -/
def relation? (r : Record) (attr : String) : Option (Loaded Record) :=
  Directory.at? r.relations attr

/-- Whether an association has been loaded. -/
def isLoaded (r : Record) (attr : String) : Bool := (r.relation? attr).isSome

/-- The records that have been loaded through an association. -/
def related (r : Record) (attr : String) : List Record :=
  ((r.relation? attr).map Loaded.records).getD []

/-- The record with what has been loaded through an association. -/
def setRelation (r : Record) (attr : String) (l : Loaded Record) : Record :=
  { r with relations := Directory.put r.relations attr l }

/-- The record without what has been loaded. -/
def bare (r : Record) : Record := { r with relations := [] }

mutual

/-- The JSON form of a record. -/
def json : Record → Json
  | ⟨_, _, fields, _, relations⟩ =>
    let values := fields.map fun p => (p.1, p.2.json)
    .object ((jsonRelations relations).foldl (fun d p => Directory.put d p.1 p.2) values)

/-- The JSON forms of what has been loaded, by association. -/
def jsonRelations : List (String × Loaded Record) → List (String × Json)
  | [] => []
  | (name, l) :: rest => (name, jsonLoaded l) :: jsonRelations rest

/-- The JSON form of what has been loaded through one association. -/
def jsonLoaded : Loaded Record → Json
  | .one none => .null
  | .one (some r) => r.json
  | .many rs => .list (jsonRecords rs)

/-- The JSON forms of records. -/
def jsonRecords : List Record → List Json
  | [] => []
  | r :: rs => r.json :: jsonRecords rs

end

end Record

end EntityQuery
