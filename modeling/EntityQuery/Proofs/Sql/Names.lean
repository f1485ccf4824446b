import EntityQuery.Proofs.Filter.Typing
import EntityQuery.Proofs.Schema.BackReferences
import EntityQuery.Proofs.Sql.Forms
import EntityQuery.Sql.Statement

/-!
# The names in a statement

**A statement names no table and no column but those of the schema** (`Schema.storageNames`): the
tables and columns that are joined are those of the links that the joins go along
(`mem_storageNames_of_joinClauses`), the columns that are compared are those of the attributes that
the predicate reads (`mem_storageNames_of_columnRef`), and so are those that are given out and
ordered by (`mem_storageNames_of_outputColumns`, `mem_storageNames_of_resolveOrder`).
-/

namespace EntityQuery

/-! ## Names of a schema -/

/-- The names of the columns and tables that an attribute is stored in. -/
def Attribute.storageNames (a : Attribute) : List String :=
  a.column ::
    match a.kind with
    | .scalar _ => []
    | .association r =>
      r.joinColumn.toList ++
        r.joinTable.toList.flatMap fun t => [t.table, t.ownerColumn, t.targetColumn]
    | .map t => [t.table, t.ownerColumn, t.keyColumn, t.valueColumn]
    | .collection t => [t.table, t.ownerColumn, t.valueColumn]

/-- The names of the tables and columns in which the records of an entity are stored. -/
def Entity.storageNames (e : Entity) : List String :=
  e.table :: e.idColumn :: e.attributes.flatMap Attribute.storageNames

/-- The names of the tables and columns of a schema. -/
def Schema.storageNames (s : Schema) : List String := s.entities.flatMap Entity.storageNames

namespace Schema

variable {s : Schema} {e : Entity} {a : Attribute} {name owner attr : String}

theorem mem_entities (h : s.entity name = .ok e) : e ∈ s.entities :=
  List.mem_of_find?_eq_some (entity_eq_ok_iff.mp h)

theorem table_mem_storageNames (he : e ∈ s.entities) : e.table ∈ s.storageNames :=
  List.mem_flatMap.mpr ⟨e, he, List.mem_cons_self⟩

theorem idColumn_mem_storageNames (he : e ∈ s.entities) : e.idColumn ∈ s.storageNames :=
  List.mem_flatMap.mpr ⟨e, he, List.mem_cons_of_mem _ List.mem_cons_self⟩

theorem mem_storageNames_of_attribute (he : e ∈ s.entities) (ha : a ∈ e.attributes)
    (h : name ∈ a.storageNames) : name ∈ s.storageNames :=
  List.mem_flatMap.mpr ⟨e, he, List.mem_cons_of_mem _
    (List.mem_cons_of_mem _ (List.mem_flatMap.mpr ⟨a, ha, h⟩))⟩

theorem mem_storageNames_of_attributeOf (ha : s.attributeOf owner attr = .ok a)
    (h : name ∈ a.storageNames) : name ∈ s.storageNames := by
  obtain ⟨e, he, ha⟩ := attributeOf_eq_ok_iff.mp ha
  exact mem_storageNames_of_attribute (mem_entities he) (Entity.mem_of_attribute? ha) h

theorem column_mem_storageNames (he : e ∈ s.entities) (ha : a ∈ e.attributes) :
    a.column ∈ s.storageNames :=
  mem_storageNames_of_attribute he ha List.mem_cons_self

theorem joinColumn_mem_storageNames {r : Association} (association : a.kind = .association r)
    (h : r.joinColumn = some name) : name ∈ a.storageNames := by
  simp [Attribute.storageNames, association, h]

theorem foreignKeyColumn_mem_storageNames (h : a.foreignKeyColumn? = some name) :
    name ∈ a.storageNames := by
  unfold Attribute.foreignKeyColumn? at h
  split at h
  · next r association =>
    split at h
    · exact joinColumn_mem_storageNames (Attribute.association?_eq_some_iff.mp association) h
    · cases h
  · cases h

/-- The names that a table between two entities has, from either side. -/
theorem joinTable_mem_storageNames {r : Association} {t : JoinTable}
    (association : a.kind = .association r) (h : r.joinTable = some t) :
    t.table ∈ a.storageNames ∧ t.ownerColumn ∈ a.storageNames ∧
      t.targetColumn ∈ a.storageNames := by
  simp [Attribute.storageNames, association, h]

/-! ## Names in links -/

/-- The attribute that leads back is one of the schema. -/
theorem exists_of_backReference {back : Attribute} (h : s.backReference owner attr = .ok back) :
    ∃ target ∈ s.entities, back ∈ target.attributes := by
  obtain ⟨_, target, _, _, htarget, hback, _⟩ := backReference_eq_ok h
  exact ⟨target, mem_entities htarget, hback⟩

theorem mem_storageNames_of_backReference {back : Attribute}
    (h : s.backReference owner attr = .ok back) (hname : name ∈ back.storageNames) :
    name ∈ s.storageNames := by
  obtain ⟨target, htarget, hback⟩ := exists_of_backReference h
  exact mem_storageNames_of_attribute htarget hback hname

theorem mem_storageNames_of_joinTable {t : JoinTable} (h : s.joinTable owner attr = .ok t) :
    t.table ∈ s.storageNames ∧ t.ownerColumn ∈ s.storageNames ∧
      t.targetColumn ∈ s.storageNames := by
  obtain ⟨r, hr, -, own | ⟨-, back, r', hback, kind, table⟩⟩ := joinTable_eq_ok h
  · obtain ⟨a, ha, association⟩ := association_eq_ok_iff.mp hr
    obtain ⟨table, owned, target⟩ := joinTable_mem_storageNames association own
    exact ⟨mem_storageNames_of_attributeOf ha table, mem_storageNames_of_attributeOf ha owned,
      mem_storageNames_of_attributeOf ha target⟩
  · obtain ⟨table, owned, target⟩ := joinTable_mem_storageNames kind table
    exact ⟨mem_storageNames_of_backReference hback table,
      mem_storageNames_of_backReference hback target,
      mem_storageNames_of_backReference hback owned⟩

theorem mem_storageNames_of_inverseJoinColumn {column : String}
    (h : s.inverseJoinColumn owner attr = .ok column) : column ∈ s.storageNames := by
  obtain ⟨back, hback, h⟩ := bind_eq_ok.mp h
  split at h
  · next found =>
    cases h
    exact mem_storageNames_of_backReference hback (foreignKeyColumn_mem_storageNames found)
  · obtain ⟨_, _, h⟩ := bind_eq_ok.mp h
    cases h

/-- The names that a link brings with it. -/
def linkNames : Link → List String
  | .identity => []
  | .foreignKey _ column => [column]
  | .joinTable t => [t.table, t.ownerColumn, t.targetColumn]

theorem mem_storageNames_of_link {l : Link} (h : s.link owner attr = .ok l)
    (hname : name ∈ linkNames l) : name ∈ s.storageNames := by
  obtain ⟨r, _, h⟩ := bind_eq_ok.mp h
  split at h
  · cases h
    cases hname
  · obtain ⟨t, ht, h⟩ := bind_eq_ok.mp h
    cases h
    obtain ⟨table, owned, target⟩ := mem_storageNames_of_joinTable ht
    simp only [linkNames, List.mem_cons, List.not_mem_nil, or_false] at hname
    rcases hname with rfl | rfl | rfl
    · exact table
    · exact owned
    · exact target
  all_goals
    split at h
    · cases h
      cases hname
    · obtain ⟨back, _, h⟩ := bind_eq_ok.mp h
      obtain ⟨column, hcolumn, h⟩ := bind_eq_ok.mp h
      cases h
      rw [List.mem_singleton.mp hname]
      exact mem_storageNames_of_inverseJoinColumn hcolumn

/-! ## Names that are read -/

theorem mem_entities_of_rowsAlong? {step : Step} (h : s.rowsAlong? step = some (.entity e)) :
    e ∈ s.entities := by
  obtain ⟨a, _, hkind⟩ := rowsAlong?_eq_some_iff.mp h
  unfold rowsOf? at hkind
  split at hkind
  · cases hkind
  · obtain ⟨target, htarget, same⟩ := Option.map_eq_some_iff.mp hkind
    cases same
    exact List.mem_of_find?_eq_some htarget
  · cases hkind
  · cases hkind

end Schema

theorem Joins.mem_entities_of_rowsAt? {s : Schema} {root e : Entity} {joins : Joins}
    {source : Source} (hroot : root ∈ s.entities)
    (h : joins.rowsAt? s root source = some (.entity e)) : e ∈ s.entities := by
  cases source with
  | root =>
    cases h
    exact hroot
  | join id =>
    obtain ⟨j, _, hkind⟩ := Option.bind_eq_some_iff.mp h
    exact Schema.mem_entities_of_rowsAlong? hkind

theorem RowKind.Has.column_mem {s : Schema} {e : Entity} {name column : String}
    {type : ScalarType} (he : e ∈ s.entities)
    (h : (RowKind.entity e).Has (.attribute name column) type) : column ∈ s.storageNames := by
  cases h with
  | scalar declared =>
    exact Schema.column_mem_storageNames he (Entity.mem_of_attribute? declared)
  | identifier => exact Schema.idColumn_mem_storageNames he

namespace Sql

variable {s : Schema} {root : Entity} {joins : Joins}

/-- The column in which an attribute with a type is read is one of the schema. -/
theorem mem_storageNames_of_columnRef (hroot : root ∈ s.entities) {a : AttrRef}
    {type : ScalarType} (read : a.HasType s root joins type) {ref : ColumnRef}
    (h : columnRef s joins a = .ok ref) : ref.column ∈ s.storageNames := by
  obtain ⟨kind, hkind, has⟩ := read
  unfold columnRef at h
  split at h
  · next name column source plain =>
    cases h
    rw [plain] at has
    cases kind with
    | entity e => exact has.column_mem (Joins.mem_entities_of_rowsAt? hroot hkind)
    | map | collection => cases has
  · cases h
  · split at h
    · cases h
    · obtain ⟨column, hcolumn, h⟩ := bind_eq_ok.mp h
      cases h
      obtain ⟨a, ha, hcolumn⟩ := bind_eq_ok.mp hcolumn
      refine Schema.mem_storageNames_of_attributeOf ha ?_
      unfold Attribute.storageNames
      split at hcolumn
      · next kind _ => cases hcolumn; simp [kind]
      · next kind _ => cases hcolumn; simp [kind]
      · next kind _ => cases hcolumn; simp [kind]
      · cases hcolumn

/-- The tables and columns that are joined are those of the schema. -/
theorem mem_storageNames_of_joinClauses {j : JoinNode} {clauses : List JoinClause}
    (h : joinClauses s j = .ok clauses) {clause : JoinClause} (hc : clause ∈ clauses) :
    clause.table ∈ s.storageNames ∧ clause.column ∈ s.storageNames ∧
      clause.other.column ∈ s.storageNames := by
  obtain ⟨owner, howner, h⟩ := bind_eq_ok.mp h
  obtain ⟨a, ha, h⟩ := bind_eq_ok.mp h
  have ownerId := Schema.idColumn_mem_storageNames (Schema.mem_entities howner)
  have own {name : String} (hname : name ∈ a.storageNames) : name ∈ s.storageNames :=
    Schema.mem_storageNames_of_attributeOf ha hname
  dsimp only at h
  split at h
  · obtain ⟨target, htarget, h⟩ := bind_eq_ok.mp h
    obtain ⟨l, hl, h⟩ := bind_eq_ok.mp h
    have htarget := Schema.mem_entities htarget
    have table := Schema.table_mem_storageNames htarget
    have targetId := Schema.idColumn_mem_storageNames htarget
    have linked {name : String} (hname : name ∈ Schema.linkNames l) : name ∈ s.storageNames :=
      Schema.mem_storageNames_of_link hl hname
    split at h
    · split at h
      · cases h
      · next column hcolumn =>
        cases h
        rw [List.mem_singleton.mp hc]
        exact ⟨table, targetId, own (Schema.foreignKeyColumn_mem_storageNames hcolumn)⟩
    · cases h
      rw [List.mem_singleton.mp hc]
      exact ⟨table, linked (by simp [Schema.linkNames]), ownerId⟩
    · cases h
      rcases List.mem_pair.mp hc with rfl | rfl
      · exact ⟨linked (by simp [Schema.linkNames]), linked (by simp [Schema.linkNames]), ownerId⟩
      · exact ⟨table, targetId, linked (by simp [Schema.linkNames])⟩
  · next t kind =>
    cases h
    rw [List.mem_singleton.mp hc]
    exact ⟨own (by simp [Attribute.storageNames, kind]),
      own (by simp [Attribute.storageNames, kind]), ownerId⟩
  · next t kind =>
    cases h
    rw [List.mem_singleton.mp hc]
    exact ⟨own (by simp [Attribute.storageNames, kind]),
      own (by simp [Attribute.storageNames, kind]), ownerId⟩
  · cases h

/-- What is read of the rows of an entity stands in columns of the schema. -/
theorem mem_storageNames_of_outputColumns {e : Entity} (he : e ∈ s.entities)
    {outputs : List Output} (h : outputColumns s e = .ok outputs) {output : Output}
    (ho : output ∈ outputs) :
    ∃ column ∈ s.storageNames, output = .column ⟨.root, column⟩ := by
  obtain ⟨projection, hprojection, h⟩ := bind_eq_ok.mp h
  cases h
  obtain ⟨p, hp, rfl⟩ := List.mem_map.mp ho
  refine ⟨p.column, ?_, rfl⟩
  obtain ⟨references, hreferences, h⟩ := bind_eq_ok.mp hprojection
  cases h
  rcases List.mem_append.mp hp with hp | hp
  · obtain ⟨a, ha, rfl⟩ := List.mem_map.mp hp
    exact Schema.column_mem_storageNames he (List.mem_of_mem_filter ha)
  · obtain ⟨r, hr, rfl⟩ := List.mem_filterMap.mp hp
    obtain ⟨a, ha, hreference⟩ := exists_of_forall₂ (mapM_eq_ok.mp hreferences) hr
    unfold Schema.referenceColumn at hreference
    split at hreference
    · next column _ hcolumn =>
      obtain ⟨target, _, hreference⟩ := bind_eq_ok.mp hreference
      cases hreference
      exact Schema.mem_storageNames_of_attribute he (List.mem_of_mem_filter ha)
        (Schema.foreignKeyColumn_mem_storageNames hcolumn)
    · cases hreference

/-- The columns of a sort order that has been resolved are those of the schema. -/
theorem mem_storageNames_of_resolveOrder {name : String} {keys : List SortKey}
    {order : List OrderKey} (h : s.resolveOrder name keys = .ok order) {k : OrderKey}
    (hk : k ∈ order) : k.column ∈ s.storageNames := by
  obtain ⟨key, _, hkey⟩ := exists_of_forall₂ (mapM_eq_ok.mp h) hk
  obtain ⟨a, ha, hkey⟩ := bind_eq_ok.mp hkey
  split at hkey
  · cases hkey
    exact Schema.mem_storageNames_of_attributeOf ha List.mem_cons_self
  · cases hkey

end Sql

end EntityQuery
