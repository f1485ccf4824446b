import EntityQuery.Proofs.Schema.Identifiers
import EntityQuery.Schema.Document

/-!
# Well-formed schemas

A schema is built of declarations, or of a document that is read as declarations. **Whichever it is,
and in whatever order modifiers have been given, what is built is well formed**
(`built_well_formed`): names stand for one thing each, every entity has the scalar by which its
records are identified, and associations lead to entities that are there. The columns read of a row
are then known for every entity, and their names are those of its scalars and of the targets kept in
its own table (`names_of_projection`).

`Origin` says what a schema is built of, and `WellFormed` has a field for each of the properties;
they are proved from the descriptions of the declared entities, which lookups by name refer to
(`entity_eq_ok_iff_of_declare`).
-/

namespace EntityQuery

theorem Entity.Distinct.attribute?_eq_some_iff {e : Entity} (h : e.Distinct) {name : String}
    {a : Attribute} : e.attribute? name = some a ↔ a ∈ e.attributes ∧ a.name = name := by
  constructor
  · intro found
    exact ⟨Entity.mem_of_attribute? found, Entity.name_of_attribute? found⟩
  · rintro ⟨ha, rfl⟩
    exact h.attribute? ha

/-- The own table has a column for an attribute exactly if that is an association to one, with its
storage on this side. -/
theorem Attribute.foreignKeyColumn?_eq_some_iff {a : Attribute} {column : String} :
    a.foreignKeyColumn? = some column ↔ ∃ r, a.kind = .association r ∧ r.owning = true ∧
      (r.kind = .manyToOne ∨ r.kind = .oneToOne) ∧ r.joinColumn = some column := by
  have toOne (kind : RelationKind) :
      kind.isToMany = false ↔ kind = .manyToOne ∨ kind = .oneToOne := by
    cases kind <;> decide
  unfold foreignKeyColumn? association? Association.isReference
  cases a.kind with
  | association r => simp [← toOne, and_assoc]
  | scalar | map | collection => simp

namespace Schema

variable {s : Schema}

/-! ## The columns of an entity -/

/-- The column of an association that is stored in the own table is known once its target is. -/
theorem referenceColumn_eq_ok {a : Attribute} {column : Option Projected}
    (kept : a.foreignKeyColumn?.isSome = true) (h : s.referenceColumn a = .ok column) :
    ∃ p, column = some p ∧ p.name = a.name ∧ p.reference = true := by
  obtain ⟨name, stored⟩ := Option.isSome_iff_exists.mp kept
  obtain ⟨r, kind, -⟩ := Attribute.foreignKeyColumn?_eq_some_iff.mp stored
  unfold referenceColumn at h
  rw [Attribute.association?_eq_some_iff.mpr kind, stored] at h
  obtain ⟨target, -, h⟩ := bind_eq_ok.mp h
  cases h
  exact ⟨_, rfl, rfl, rfl⟩

theorem names_of_references {kept : List Attribute}
    (known : ∀ a ∈ kept, a.foreignKeyColumn?.isSome = true) {references : List (Option Projected)}
    (read : List.Forall₂ (fun a column => s.referenceColumn a = .ok column) kept references) :
    (references.filterMap id).map (fun p => (p.name, p.reference)) =
      kept.map fun a => (a.name, true) := by
  induction read with
  | nil => rfl
  | @cons a column kept references ha _ ih =>
    obtain ⟨here, known⟩ := List.forall_mem_cons.mp known
    obtain ⟨p, rfl, name, reference⟩ := referenceColumn_eq_ok here ha
    rw [List.filterMap_cons_some (f := id) rfl, List.map_cons, List.map_cons, ih known, name,
      reference]

/-- The columns are those of the scalars, then those of the targets kept in the own table. -/
theorem names_of_projection {e : Entity} {columns : List Projected}
    (h : s.projection e = .ok columns) :
    columns.map (fun p => (p.name, p.reference)) =
      e.scalars.map (fun a => (a.name, false)) ++ e.references.map (fun a => (a.name, true)) := by
  obtain ⟨references, read, h⟩ := bind_eq_ok.mp h
  cases h
  have kept : ∀ a ∈ e.references, a.foreignKeyColumn?.isSome = true := fun a ha =>
    (List.mem_filter.mp ha).2
  rw [List.map_append, List.map_map, names_of_references kept (mapM_eq_ok.mp read)]
  rfl

/-! ## Building a schema -/

/-- What a schema is built of. -/
inductive Origin where
  | declarations (entities : List EntityDeclaration)
  | document (source : String)

/-- The declared entities. -/
def Origin.entities : Origin → Except SchemaFault (List EntityDeclaration)
  | .declarations entities => .ok entities
  | .document source =>
    match Json.Source.read? source with
    | none => .error (.invalidDocument "not a JSON text")
    | some j =>
      match Document.entities? j with
      | none => .error (.invalidDocument "not the description of a schema")
      | some entries => entries.mapM Document.EntityEntry.declaration

/-- The schema that is built. -/
def Origin.build : Origin → Except SchemaFault Schema
  | .declarations entities => declare entities
  | .document source => ofDocument source

theorem Origin.build_eq (o : Origin) : o.build = o.entities >>= declare := by
  cases o with
  | declarations entities => rfl
  | document source =>
    show ofDocument source = _
    unfold ofDocument Origin.entities
    dsimp only
    cases Json.Source.read? source with
    | none => rfl
    | some j =>
      dsimp only
      cases Document.entities? j <;> rfl

/-- Every name stands for one thing, and what is named is there. -/
structure WellFormed (s : Schema) : Prop where
  entityNames : (s.entities.map (·.name)).Nodup
  entityNamed : ∀ name e, s.entity name = .ok e ↔ e ∈ s.entities ∧ e.name = name
  attributeNames : ∀ e ∈ s.entities, (e.attributes.map (·.name)).Nodup
  attributeNamed : ∀ e ∈ s.entities, ∀ name a,
    e.attribute? name = some a ↔ a ∈ e.attributes ∧ a.name = name
  /-- The records of an entity are identified by a scalar that is never null. -/
  identifier : ∀ e ∈ s.entities, ∃ a ∈ e.attributes, ∃ type, a.name = e.id ∧
    a.kind = .scalar type ∧ a.nullable = false ∧ e.attribute? e.id = some a ∧
    e.idAttribute = a ∧ e.idType = type ∧ e.idColumn = a.column
  target : ∀ e ∈ s.entities, ∀ a ∈ e.attributes, ∀ r, a.kind = .association r →
    ∃ target ∈ s.entities, s.entity r.target = .ok target
  /-- The own table keeps a target only of an association to one, stored on this side. -/
  reference : ∀ e ∈ s.entities, ∀ a ∈ e.attributes, ∀ column, a.foreignKeyColumn? = some column →
    ∃ r, a.kind = .association r ∧ r.owning = true ∧ (r.kind = .manyToOne ∨ r.kind = .oneToOne) ∧
      r.joinColumn = some column
  /-- The columns of an entity are known: its scalars, and the targets that its table keeps. -/
  projection : ∀ e ∈ s.entities, ∃ columns, s.projection e = .ok columns ∧
    columns.map (fun p => (p.name, p.reference)) =
      e.scalars.map (fun a => (a.name, false)) ++ e.references.map (fun a => (a.name, true))

variable {entities : List EntityDeclaration}

/-- In a declared schema an entity is found by its name. -/
theorem entity_eq_ok_iff_of_declare (h : declare entities = .ok s) {name : String} {e : Entity} :
    s.entity name = .ok e ↔ e ∈ s.entities ∧ e.name = name := by
  constructor
  · intro found
    exact ⟨List.mem_of_find?_eq_some (entity_eq_ok_iff.mp found), name_of_entity found⟩
  · rintro ⟨he, rfl⟩
    obtain ⟨e', found⟩ : ∃ e', s.entities.find? (·.name = e.name) = some e' :=
      Option.isSome_iff_exists.mp (List.find?_isSome.mpr ⟨e, he, decide_eq_true rfl⟩)
    have same : e' = e := List.inj_on_of_nodup_map (forall₂_of_declare h).2
      (List.mem_of_find?_eq_some found) he (by simpa using List.find?_some found)
    exact entity_eq_ok_iff.mpr (same ▸ found)

theorem wellFormed_of_declare (h : declare entities = .ok s) : s.WellFormed where
  entityNames := (forall₂_of_declare h).2
  entityNamed _ _ := entity_eq_ok_iff_of_declare h
  attributeNames := distinct_of_declare h
  attributeNamed e he _ _ := (distinct_of_declare h e he).attribute?_eq_some_iff
  identifier e he := by
    obtain ⟨x, -, described⟩ := described_of_declare h e he
    obtain ⟨a, ha, type, named, kind, notNull⟩ :=
      (EntityDeclaration.describes_of_entity described).exists_identifier
    have found : e.attribute? e.id = some a :=
      (distinct_of_declare h e he).attribute?_eq_some_iff.mpr ⟨ha, named⟩
    have identified : e.idAttribute = a := by rw [Entity.idAttribute, found, Option.getD_some]
    refine ⟨a, ha, type, named, kind, notNull, found, identified, ?_, ?_⟩
    · rw [Entity.idType, identified, Attribute.scalarType?, kind, Option.getD_some]
    · rw [Entity.idColumn, identified]
  target e he a ha r kind := by
    obtain ⟨target, found⟩ := closed_of_declare h e he a ha r kind
    exact ⟨target, List.mem_of_find?_eq_some (entity_eq_ok_iff.mp found), found⟩
  reference _ _ _ _ _ := Attribute.foreignKeyColumn?_eq_some_iff.mp
  projection e he := by
    have found := (entity_eq_ok_iff_of_declare h).mpr ⟨he, rfl⟩
    obtain ⟨columns, read⟩ := (closed_of_declare h).succeeds_projection found
    exact ⟨columns, read, names_of_projection read⟩

/-- **A schema that can be built is well formed**, and its entities are those declared, one by one
and attribute by attribute. -/
theorem built_well_formed {o : Origin} (h : o.build = .ok s) :
    s.WellFormed ∧ ∃ entities, o.entities = .ok entities ∧
      List.Forall₂ EntityDeclaration.Describes entities s.entities := by
  rw [Origin.build_eq] at h
  obtain ⟨entities, read, declared⟩ := bind_eq_ok.mp h
  refine ⟨wellFormed_of_declare declared, entities, read, ?_⟩
  exact (forall₂_of_declare declared).1.imp fun _ _ => EntityDeclaration.describes_of_entity

/-- A book has two identifiers of which the second counts, and its association to its author is
turned around and back again by modifiers. -/
theorem built_well_formed_books :
    let book : EntityDeclaration := ⟨"Book", "book", [.id "isbn" .text, .column "code",
      .id "id" .uuid, .association "author" .manyToOne "Author", .mappedBy "books",
      .joinTable ⟨"book_author", "book_id", "author_id"⟩, .joinColumn "writer", .notNull]⟩
    let author : EntityDeclaration := ⟨"Author", "author", [.id "id" .integer, .notNull,
      .association "books" .oneToMany "Book", .inverse "author"]⟩
    ∃ s, (Origin.declarations [book, author]).build = .ok s ∧ s.WellFormed ∧
      ∃ e, s.entity "Book" = .ok e ∧ e.idType = .uuid ∧
        (e.attribute? "author").bind (·.foreignKeyColumn?) = some "writer" := by
  intro book author
  obtain ⟨s, built, found⟩ : ∃ s, (Origin.declarations [book, author]).build = .ok s ∧
      ∃ e, s.entity "Book" = .ok e ∧ e.idType = .uuid ∧
        (e.attribute? "author").bind (·.foreignKeyColumn?) = some "writer" :=
    ⟨_, rfl, _, rfl, rfl, rfl⟩
  exact ⟨s, built, (built_well_formed built).1, found⟩

end Schema

end EntityQuery
