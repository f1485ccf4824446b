import EntityQuery.Schema.Basic
import EntityQuery.Text.Cut

/-! # Declaring a schema

An entity is declared by a sequence of declarations, of attributes and of modifiers; a modifier
changes the attribute declared last. `Schema.declare` makes a schema of declared entities: it
refuses misplaced modifiers, entities without an identifier, names given twice and associations
with entities that are not there. -/
namespace EntityQuery

/-- A declaration in the description of an entity. -/
inductive Declaration where
  | id (name : String) (type : ScalarType)
  | scalar (name : String) (type : ScalarType)
  | association (name : String) (kind : RelationKind) (target : String)
  | map (name : String) (keyType valueType : ScalarType)
  | collection (name : String) (elementType : ScalarType)
  /-- The column of the attribute. -/
  | column (name : String)
  | notNull
  /-- The attribute of the target that leads back. -/
  | inverse (attr : String)
  /-- The attribute of the target that leads back and names the storage. -/
  | mappedBy (attr : String)
  | joinColumn (name : String)
  | joinTable (t : JoinTable)
  /-- The table of a map or a collection. -/
  | elementTable (table ownerColumn : String)
deriving DecidableEq

/-- An entity with the declarations that describe it. -/
structure EntityDeclaration where
  name : String
  table : String
  declarations : List Declaration
deriving DecidableEq

/-- An entity whose description is being read. -/
structure Draft where
  name : String
  table : String
  id : Option String
  /-- The attributes declared so far, the last one first. -/
  attributes : List Attribute
deriving DecidableEq

namespace Draft

/-- An association with the columns and tables it has unless told otherwise. -/
def plainAssociation (table name : String) (kind : RelationKind) (target : String) :
    Association where
  kind := kind
  target := target
  inverse := none
  owning := kind != .oneToMany
  joinColumn := if kind.isToMany then none else some (name ++ "_id")
  joinTable :=
    if kind = .manyToMany then
      some {
        table := table ++ "_" ++ name
        ownerColumn := table ++ "_id"
        targetColumn := String.ofList (Text.asciiLower target.toList) ++ "_id" }
    else none

/-- The draft with one more attribute. -/
def push (d : Draft) (name column : String) (kind : AttributeKind) : Draft :=
  { d with attributes := ⟨name, column, true, kind⟩ :: d.attributes }

/-- Changes the attribute declared last; `modifier` is named if there is none. -/
def changeLast (d : Draft) (modifier : String) (f : Attribute → Attribute) :
    Except SchemaFault Draft :=
  match d.attributes with
  | [] => .error (.misplacedModifier d.name modifier)
  | a :: rest => .ok { d with attributes := f a :: rest }

/-- Changes the attribute declared last, which has to be an association, and its column if one is
given. -/
def changeAssociation (d : Draft) (modifier : String) (f : Association → Association)
    (column : Option String) : Except SchemaFault Draft :=
  match d.attributes with
  | [] => .error (.misplacedModifier d.name modifier)
  | a :: rest =>
    match a.association? with
    | none => .error (.modifierNeedsAssociation d.name a.name modifier)
    | some r =>
      .ok { d with attributes :=
              { a with column := column.getD a.column, kind := .association (f r) } :: rest }

/-- The kind of a map or collection that is stored in another table. -/
def storedIn (table ownerColumn : String) : AttributeKind → AttributeKind
  | .map t => .map { t with table := table, ownerColumn := ownerColumn }
  | .collection t => .collection { t with table := table, ownerColumn := ownerColumn }
  | kind => kind

/-- The draft after one more declaration. -/
def declare (d : Draft) : Declaration → Except SchemaFault Draft
  | .id name type =>
    .ok { d with id := some name, attributes := ⟨name, name, false, .scalar type⟩ :: d.attributes }
  | .scalar name type => .ok (d.push name name (.scalar type))
  | .association name kind target =>
    let r := plainAssociation d.table name kind target
    .ok (d.push name (r.joinColumn.getD name) (.association r))
  | .map name keyType valueType =>
    .ok (d.push name name
      (.map ⟨d.table ++ "_" ++ name, d.table ++ "_id", "key", "value", keyType, valueType⟩))
  | .collection name elementType =>
    .ok (d.push name name
      (.collection ⟨d.table ++ "_" ++ name, d.table ++ "_id", "value", elementType⟩))
  | .column name => d.changeLast "column" fun a => { a with column := name }
  | .notNull => d.changeLast "not_null" fun a => { a with nullable := false }
  | .inverse attr =>
    d.changeAssociation "inverse" (fun r => { r with inverse := some attr }) none
  | .mappedBy attr =>
    d.changeAssociation "mapped_by"
      (fun r => { r with inverse := some attr, owning := false, joinColumn := none,
                         joinTable := none }) none
  | .joinColumn name =>
    d.changeAssociation "join_column" (fun r => { r with joinColumn := some name })
      (some name)
  | .joinTable t =>
    d.changeAssociation "join_table" (fun r => { r with owning := true, joinTable := some t }) none
  | .elementTable table ownerColumn =>
    d.changeLast "element_table" fun a => { a with kind := storedIn table ownerColumn a.kind }

end Draft

/-- The first name that an earlier one repeats, going through the names in order. -/
def firstRepeated : List String → List String → Option String
  | _, [] => none
  | seen, name :: rest =>
    if name ∈ seen then some name else firstRepeated (name :: seen) rest

/-- There is no repeated name exactly when the names differ from each other and from those seen. -/
theorem firstRepeated_eq_none_iff {seen names : List String} :
    firstRepeated seen names = none ↔ names.Nodup ∧ ∀ n ∈ names, n ∉ seen := by
  induction names generalizing seen with
  | nil => simp [firstRepeated]
  | cons n rest ih =>
    by_cases h : n ∈ seen
    · simp [firstRepeated, h]
    · simp only [firstRepeated, h, if_false, ih, List.nodup_cons, List.mem_cons, not_or,
        forall_eq_or_imp, not_false_eq_true, true_and]
      constructor
      · rintro ⟨hr, hs⟩
        exact ⟨⟨fun hn => (hs n hn).1 rfl, hr⟩, fun m hm => (hs m hm).2⟩
      · rintro ⟨⟨hn, hr⟩, hs⟩
        exact ⟨hr, fun m hm => ⟨fun e => hn (e ▸ hm), hs m hm⟩⟩

/-- The entity that a draft describes. -/
def Draft.entity (d : Draft) : Except SchemaFault Entity :=
  let attributes := d.attributes.reverse
  match d.id with
  | none => .error (.noId d.name)
  | some id =>
    match firstRepeated [] (attributes.map (·.name)) with
    | some name => .error (.duplicateAttribute d.name name)
    | none => .ok ⟨d.name, d.table, id, attributes⟩

/-- The entity that its declarations describe. -/
def EntityDeclaration.entity (e : EntityDeclaration) : Except SchemaFault Entity := do
  (← e.declarations.foldlM Draft.declare ⟨e.name, e.table, none, []⟩).entity

namespace Schema

/-- Reads the declared entities one after the other, after those already known. -/
def declareEntities (known : List Entity) :
    List EntityDeclaration → Except SchemaFault (List Entity)
  | [] => .ok known
  | e :: rest => do
    let entity ← e.entity
    if entity.name ∈ known.map (·.name) then .error (.duplicateEntity entity.name)
    else declareEntities (known ++ [entity]) rest

/-- The first association whose target is not in the schema. -/
def strayAssociation? (s : Schema) : Option SchemaFault :=
  s.entities.findSome? fun e => e.attributes.findSome? fun a =>
    match a.association? with
    | some r =>
      if (s.entity? r.target).isNone then some (.unknownTarget e.name a.name r.target) else none
    | none => none

/-- The schema of the declared entities. -/
def declare (entities : List EntityDeclaration) : Except SchemaFault Schema := do
  let s : Schema := ⟨← declareEntities [] entities⟩
  match s.strayAssociation? with
  | some fault => .error fault
  | none => .ok s

end Schema

end EntityQuery
