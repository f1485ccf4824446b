import EntityQuery.Proofs.Schema.BackReferences

/-!
# The names of tables between two entities

A many-to-many association that is not told otherwise names the table itself: after the table of its
own entity and after its target (`JoinTable.standard`). So do all associations of entities whose
declarations name no such table (`standard_of_declare`). **The two columns have the same name
exactly where the table of the entity that names them is called like the target in lower case**
(`columns_eq_iff`), as that of an entity which is its own target often is.
-/

namespace EntityQuery

/-- The table that an association names unless told otherwise. -/
def JoinTable.standard (table name target : String) : JoinTable where
  table := table ++ "_" ++ name
  ownerColumn := table ++ "_id"
  targetColumn := String.ofList (Text.asciiLower target.toList) ++ "_id"

theorem JoinTable.standard_columns_eq_iff (table name target : String) :
    (standard table name target).ownerColumn = (standard table name target).targetColumn ↔
      table = String.ofList (Text.asciiLower target.toList) :=
  String.append_left_inj _

/-- The association names no table, or the one that it names unless told otherwise. -/
def Attribute.Standard (table : String) (a : Attribute) : Prop :=
  ∀ r t, a.kind = .association r → r.joinTable = some t → t = .standard table a.name r.target

/-- The declarations name no table between two entities. -/
def EntityDeclaration.NamesNoTable (x : EntityDeclaration) : Prop :=
  ∀ y ∈ x.declarations, ∀ t, y ≠ .joinTable t

namespace Draft

/-- All associations name their tables as they do unless told otherwise. -/
def Standard (d : Draft) : Prop := ∀ a ∈ d.attributes, a.Standard d.table

variable {d d' : Draft} {modifier : String}

theorem Standard.push (h : d.Standard) {name column : String} {kind : AttributeKind}
    (new : Attribute.Standard d.table ⟨name, column, true, kind⟩) :
    (d.push name column kind).Standard :=
  List.forall_mem_cons.mpr ⟨new, h⟩

theorem Standard.changeLast (h : d.Standard) {f : Attribute → Attribute}
    (hd : d.changeLast modifier f = .ok d')
    (keeps : ∀ a, a.Standard d.table → (f a).Standard d.table) : d'.Standard := by
  obtain ⟨a, rest, last, rfl⟩ := changeLast_eq_ok hd
  have h : ∀ b ∈ a :: rest, b.Standard d.table := last ▸ h
  obtain ⟨ha, hrest⟩ := List.forall_mem_cons.mp h
  exact List.forall_mem_cons.mpr ⟨keeps a ha, hrest⟩

/-- What is changed keeps its target, and its table unless it loses it. -/
theorem Standard.changeAssociation (h : d.Standard) {f : Association → Association}
    {column : Option String} (hd : d.changeAssociation modifier f column = .ok d')
    (keeps : ∀ r t, (f r).joinTable = some t → (f r).target = r.target ∧ r.joinTable = some t) :
    d'.Standard := by
  obtain ⟨a, rest, r, last, association, rfl⟩ := changeAssociation_eq_ok hd
  have h : ∀ b ∈ a :: rest, b.Standard d.table := last ▸ h
  obtain ⟨ha, hrest⟩ := List.forall_mem_cons.mp h
  refine List.forall_mem_cons.mpr ⟨?_, hrest⟩
  intro r' t kind table
  cases kind
  obtain ⟨target, table⟩ := keeps r t table
  rw [ha r t association table, target]

theorem Standard.declare (h : d.Standard) {x : Declaration} (plain : ∀ t, x ≠ .joinTable t)
    (hd : d.declare x = .ok d') : d'.Standard := by
  cases x with
  | id name type =>
    cases hd
    refine List.forall_mem_cons.mpr ⟨fun r t kind => ?_, h⟩
    cases kind
  | scalar | map | collection =>
    cases hd
    refine h.push fun r t kind => ?_
    cases kind
  | association name kind target =>
    cases hd
    refine h.push fun r t hr ht => ?_
    cases hr
    unfold plainAssociation at ht
    dsimp only at ht
    split at ht
    · cases ht
      rfl
    · cases ht
  | column | notNull => exact h.changeLast hd fun _ standard => standard
  | elementTable table ownerColumn =>
    refine h.changeLast hd fun a standard r t hr ht => ?_
    dsimp only at hr
    unfold storedIn at hr
    split at hr
    · cases hr
    · cases hr
    · exact standard r t hr ht
  | inverse | joinColumn => exact h.changeAssociation hd fun r t ht => ⟨rfl, ht⟩
  | mappedBy =>
    refine h.changeAssociation hd fun r t table => ?_
    cases table
  | joinTable t => exact absurd rfl (plain t)

theorem Standard.foldlM (h : d.Standard) {xs : List Declaration}
    (plain : ∀ x ∈ xs, ∀ t, x ≠ .joinTable t) (hd : xs.foldlM Draft.declare d = .ok d') :
    d'.Standard := by
  induction xs generalizing d with
  | nil =>
    cases hd
    exact h
  | cons x xs ih =>
    obtain ⟨next, hnext, hd⟩ := bind_eq_ok.mp (List.foldlM_cons.symm.trans hd)
    obtain ⟨hx, hxs⟩ := List.forall_mem_cons.mp plain
    exact ih (h.declare hx hnext) hxs hd

end Draft

/-- The associations of the entity name their tables as they do unless told otherwise. -/
def Entity.Standard (e : Entity) : Prop := ∀ a ∈ e.attributes, a.Standard e.table

theorem EntityDeclaration.standard_of_entity {x : EntityDeclaration} {e : Entity}
    (plain : x.NamesNoTable) (h : x.entity = .ok e) : e.Standard := by
  obtain ⟨d, hd, h⟩ := bind_eq_ok.mp h
  obtain ⟨id, -, -, rfl⟩ := Draft.entity_eq_ok h
  have start : Draft.Standard ⟨x.name, x.table, none, []⟩ := List.forall_mem_nil _
  exact fun a ha => start.foldlM plain hd a (List.mem_reverse.mp ha)

/-- The entity whose association names the table between the two, and the other one. -/
def Association.ends (r : Association) (owner : String) : String × String :=
  if r.joinTable.isSome then (owner, r.target) else (r.target, owner)

namespace Schema

variable {s : Schema} {owner attr : String}

theorem standard_of_declare {entities : List EntityDeclaration}
    (plain : ∀ x ∈ entities, x.NamesNoTable) (h : declare entities = .ok s) :
    ∀ e ∈ s.entities, e.Standard := by
  intro e he
  obtain ⟨x, hx, described⟩ := described_of_declare h e he
  exact EntityDeclaration.standard_of_entity (plain x hx) described

/-- The two columns have the same name exactly if the table of the entity that names them is called
like the other entity in lower case. -/
theorem columns_eq_iff (standard : ∀ e ∈ s.entities, e.Standard) {r : Association} {t : JoinTable}
    (association : s.association owner attr = .ok r) (table : s.joinTable owner attr = .ok t) :
    ∃ e, s.entity (r.ends owner).1 = .ok e ∧ (t.ownerColumn = t.targetColumn ↔
      e.table = String.ofList (Text.asciiLower (r.ends owner).2.toList)) := by
  have known {name : String} {e : Entity} (h : s.entity name = .ok e) : e.Standard :=
    standard e (List.mem_of_find?_eq_some (entity_eq_ok_iff.mp h))
  unfold Association.ends
  obtain ⟨_, hr, -, own | ⟨none, back, r', hback, kind, own⟩⟩ := joinTable_eq_ok table
  · cases association.symm.trans hr
    obtain ⟨a, ha, kind⟩ := association_eq_ok_iff.mp association
    obtain ⟨e, he, found⟩ := attributeOf_eq_ok_iff.mp ha
    have named := known he a (Entity.mem_of_attribute? found) r t kind own
    refine ⟨e, by simpa [own] using he, ?_⟩
    rw [named, own]
    exact JoinTable.standard_columns_eq_iff ..
  · cases association.symm.trans hr
    obtain ⟨_, target, _, hr', htarget, hmem, kind', leads⟩ := backReference_eq_ok hback
    cases association.symm.trans hr'
    cases kind.symm.trans kind'
    have named := known htarget back hmem r' t.flipped kind own
    refine ⟨target, by simpa [none] using htarget, ?_⟩
    rw [none, ← JoinTable.flipped_flipped t, named]
    subst leads
    exact eq_comm.trans (JoinTable.standard_columns_eq_iff _ back.name _)

end Schema

end EntityQuery
