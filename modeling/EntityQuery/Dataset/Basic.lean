import EntityQuery.Store.Basic

/-! # Datasets

A dataset holds records in memory: the rows of each entity with an index by key, the rows of the
tables between entities, and the rows of maps and collections. A record put in under the key of
another one takes its place. Related records are the targets that a link matches with given keys, or
with one owner. -/
namespace EntityQuery

/-- The rows of an entity, with the position of each key. -/
structure Table where
  rows : List Record
  index : Directory Nat

/-- An entry of a map, or an element of a collection with a null key. -/
structure ElementRow where
  owner : Value
  key : Value
  value : Value

/-- Records in memory. -/
structure Dataset where
  tables : Directory Table
  /-- The rows of the tables between entities; a row gives a value to each column. -/
  links : Directory (List (Directory Value))
  elements : Directory (List ElementRow)

namespace Table

/-- No rows. -/
def empty : Table := ⟨[], []⟩

/-- The table with a row more, or with the row of the same key replaced. -/
def insert (t : Table) (r : Record) : Table :=
  match t.index.at? r.key with
  | some i => { t with rows := t.rows.set i r }
  | none => ⟨t.rows ++ [r], t.index.put r.key t.rows.length⟩

/-- The row of this key. -/
def find? (t : Table) (key : String) : Option Record :=
  (t.index.at? key).bind fun i => t.rows[i]?

end Table

namespace Dataset

/-- No records. -/
def empty : Dataset := ⟨[], [], []⟩

/-- The table of an entity. -/
def table (d : Dataset) (entity : String) : Table := (d.tables.at? entity).getD .empty

/-- The rows of an entity, in the order in which their keys were first put in. -/
def rows (d : Dataset) (entity : String) : List Record := (d.table entity).rows

/-- The record of this identifier. -/
def find? (d : Dataset) (entity : String) (id : Value) : Option Record :=
  (d.table entity).find? id.key

/-- The rows of a table between entities. -/
def linkRows (d : Dataset) (table : String) : List (Directory Value) :=
  (d.links.at? table).getD []

/-- The rows of a map or a collection. -/
def elementRows (d : Dataset) (table : String) : List ElementRow :=
  (d.elements.at? table).getD []

/-- The dataset with a record, without what has been loaded onto it. -/
def insert (d : Dataset) (r : Record) : Dataset :=
  { d with tables := d.tables.update r.entity .empty (·.insert r.bare) }

/-- The dataset in which an owner is tied to a target of a many-to-many association. -/
def link (d : Dataset) (s : Schema) (owner attr : String) (ownerId targetId : Value) :
    Except Error Dataset := do
  let t ← s.joinTable owner attr
  let row := (Directory.put [] t.ownerColumn ownerId).put t.targetColumn targetId
  return { d with links := d.links.update t.table [] (· ++ [row]) }

/-- The dataset with one more row of a map or a collection. -/
def addElement (d : Dataset) (table : String) (row : ElementRow) : Dataset :=
  { d with elements := d.elements.update table [] (· ++ [row]) }

/-- The dataset with one more entry of a map. -/
def putEntry (d : Dataset) (s : Schema) (entity attr : String) (owner key value : Value) :
    Except Error Dataset := do
  match (← s.attributeOf entity attr).kind with
  | .map t => return d.addElement t.table ⟨owner, key, value⟩
  | _ => throw (.invalidPath (.attributeNotMap entity attr))

/-- The dataset with one more element of a collection. -/
def pushElement (d : Dataset) (s : Schema) (entity attr : String) (owner value : Value) :
    Except Error Dataset := do
  match (← s.attributeOf entity attr).kind with
  | .collection t => return d.addElement t.table ⟨owner, .null, value⟩
  | _ => throw (.invalidPath (.attributeNotCollection entity attr))

/-! ## Related records -/

/-- A row of a table between entities, as the target of one of the owners with these keys. -/
def linkedTarget? (d : Dataset) (target : String) (t : JoinTable) (keys : List String)
    (row : Directory Value) : Option Related := do
  let owner ← row.at? t.ownerColumn
  if owner.key ∈ keys then
    let record ← d.find? target (← row.at? t.targetColumn)
    some ⟨owner, record⟩
  else none

/-- The records of `target` that the link matches with these keys. -/
def relatedTo (d : Dataset) (target : String) (keys : List String) : Link → List Related
  | .identity => ((d.rows target).filter (·.key ∈ keys)).map fun r => ⟨r.id, r⟩
  | .foreignKey attr _ =>
    (d.rows target).filterMap fun r =>
      let owner := r.reference attr
      if !owner.isNull && owner.key ∈ keys then some ⟨owner, r⟩ else none
  | .joinTable t => (d.linkRows t.table).filterMap (d.linkedTarget? target t keys)

/-- The records of `target` that the link of the association `attr` matches with one owner. -/
def targetsOf (d : Dataset) (target attr : String) (owner : Record) : Link → List Record
  | .identity => (d.find? target (owner.reference attr)).toList
  | l => (d.relatedTo target [owner.key] l).map (·.record)

end Dataset

end EntityQuery
