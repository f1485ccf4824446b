import EntityQuery.Proofs.Schema.Lookup
import Mathlib.Data.List.Nodup

/-!
# Declared entities

**Every entity of a declared schema is described by one of the declarations**
(`forall₂_of_declare`): its attributes are those that are declared, in their order and of the kind
that is declared, whatever the modifiers that follow make of them (`Describes`). Records are
identified by a scalar (`identified_of_declare`), which is the one declared last, and no two
attributes have the same name (`distinct_of_declare`).

The declaration that gives the identifier its name also makes the attribute, and no later
declaration takes it away or turns it into something else. What a draft keeps of the declarations
read so far is the invariant `Reads`, which each declaration preserves (`Reads.declare`), and so all
of them in turn (`Reads.foldlM`). For that, what a modifier changes is compared with what was
declared (`Declares.changed`, `Declares.storedIn`).
-/

namespace EntityQuery

/-- The attribute is a scalar of this name. -/
def Attribute.ScalarNamed (a : Attribute) (name : String) : Prop :=
  a.name = name ∧ ∃ type, a.kind = .scalar type

/-! ## What is declared -/

namespace Declaration

/-- Whether an attribute is declared, rather than one changed that has been declared before. -/
def isAttribute : Declaration → Bool
  | id .. | scalar .. | association .. | map .. | collection .. => true
  | column _ | notNull | inverse _ | mappedBy _ | joinColumn _ | joinTable _ | elementTable .. =>
    false

/-- The name of the identifier, where it is declared. -/
def identifier? : Declaration → Option String
  | id name _ => some name
  | _ => none

/-- The attribute is the one that is declared, as far as modifiers cannot change it. -/
def Declares (a : Attribute) : Declaration → Prop
  | id name type => a.name = name ∧ a.kind = .scalar type ∧ a.nullable = false
  | scalar name type => a.name = name ∧ a.kind = .scalar type
  | association name kind target =>
    a.name = name ∧ ∃ r, a.kind = .association r ∧ r.kind = kind ∧ r.target = target
  | map name keyType valueType =>
    a.name = name ∧ ∃ t, a.kind = .map t ∧ t.keyType = keyType ∧ t.valueType = valueType
  | collection name elementType =>
    a.name = name ∧ ∃ t, a.kind = .collection t ∧ t.elementType = elementType
  | _ => False

variable {x : Declaration} {a : Attribute}

theorem Declares.column (h : x.Declares a) (column : String) :
    x.Declares { a with column := column } := by
  cases x <;> exact h

theorem Declares.notNull (h : x.Declares a) : x.Declares { a with nullable := false } := by
  cases x
  case id => exact ⟨h.1, h.2.1, rfl⟩
  all_goals exact h

/-- What is changed as an association stays one, of the same kind and with the same target. -/
theorem Declares.changed (h : x.Declares a) {r r' : Association} (known : a.kind = .association r)
    (kind : r'.kind = r.kind) (target : r'.target = r.target) (column : String) :
    x.Declares { a with column := column, kind := .association r' } := by
  cases x
  case association =>
    obtain ⟨named, r₁, known', hkind, htarget⟩ := h
    cases known.symm.trans known'
    exact ⟨named, r', rfl, kind.trans hkind, target.trans htarget⟩
  case id => cases known.symm.trans h.2.1
  case scalar => cases known.symm.trans h.2
  case map =>
    obtain ⟨-, t, known', -⟩ := h
    cases known.symm.trans known'
  case collection =>
    obtain ⟨-, t, known', -⟩ := h
    cases known.symm.trans known'
  all_goals exact h.elim

/-- Where a map or a collection is stored is not part of what it is. -/
theorem Declares.storedIn (h : x.Declares a) (table ownerColumn : String) :
    x.Declares { a with kind := Draft.storedIn table ownerColumn a.kind } := by
  cases x
  case id =>
    obtain ⟨named, kind, notNull⟩ := h
    exact ⟨named, by rw [kind]; rfl, notNull⟩
  case scalar =>
    obtain ⟨named, kind⟩ := h
    exact ⟨named, by rw [kind]; rfl⟩
  case association =>
    obtain ⟨named, r, kind, same⟩ := h
    exact ⟨named, r, by rw [kind]; rfl, same⟩
  case map =>
    obtain ⟨named, t, kind, same⟩ := h
    exact ⟨named, { t with table := table, ownerColumn := ownerColumn }, by rw [kind]; rfl, same⟩
  case collection =>
    obtain ⟨named, t, kind, same⟩ := h
    exact ⟨named, { t with table := table, ownerColumn := ownerColumn }, by rw [kind]; rfl, same⟩
  all_goals exact h.elim

end Declaration

/-! ## Reading declarations -/

namespace Draft

variable {d d' : Draft} {modifier : String}

theorem changeLast_eq_ok {f : Attribute → Attribute} (h : d.changeLast modifier f = .ok d') :
    ∃ a rest, d.attributes = a :: rest ∧ d' = { d with attributes := f a :: rest } := by
  unfold changeLast at h
  split at h
  · cases h
  · next a rest last =>
    cases h
    exact ⟨a, rest, last, rfl⟩

/-- Only an association is changed as one. -/
theorem changeAssociation_eq_ok {f : Association → Association} {column : Option String}
    (h : d.changeAssociation modifier f column = .ok d') :
    ∃ a rest r, d.attributes = a :: rest ∧ a.kind = .association r ∧
      d' = { d with attributes :=
              { a with column := column.getD a.column, kind := .association (f r) } :: rest } := by
  unfold changeAssociation at h
  split at h
  · cases h
  · next a rest last =>
    split at h
    · cases h
    · next r association =>
      cases h
      exact ⟨a, rest, r, last, Attribute.association?_eq_some_iff.mp association, rfl⟩

/-- The draft is what these declarations make, the last one first. -/
structure Reads (d : Draft) (xs : List Declaration) : Prop where
  attributes : List.Forall₂ (fun x a => x.Declares a) (xs.filter (·.isAttribute)) d.attributes
  id : d.id = xs.findSome? (·.identifier?)

variable {xs : List Declaration}

/-- One more attribute, which is not the identifier. -/
theorem Reads.push (h : d.Reads xs) {x : Declaration} {name column : String} {kind : AttributeKind}
    (new : x.isAttribute = true) (other : x.identifier? = none)
    (declares : x.Declares ⟨name, column, true, kind⟩) :
    (d.push name column kind).Reads (x :: xs) where
  attributes := by
    rw [List.filter_cons_of_pos new]
    exact .cons declares h.attributes
  id := by
    rw [List.findSome?_cons, other]
    exact h.id

/-- The attribute declared last is changed to one that is declared by the same. -/
theorem Reads.change (h : d.Reads xs) {x : Declaration} {a a' : Attribute} {rest : List Attribute}
    (modifier : x.isAttribute = false) (other : x.identifier? = none)
    (last : d.attributes = a :: rest) (keeps : ∀ y : Declaration, y.Declares a → y.Declares a') :
    Reads { d with attributes := a' :: rest } (x :: xs) where
  attributes := by
    have attributes := h.attributes
    rw [last, List.forall₂_cons_right_iff] at attributes
    obtain ⟨y, ys, declares, before, same⟩ := attributes
    rw [List.filter_cons_of_neg (by simp [modifier]), same]
    exact .cons (keeps y declares) before
  id := by
    rw [List.findSome?_cons, other]
    exact h.id

theorem Reads.changeLast (h : d.Reads xs) {x : Declaration} {f : Attribute → Attribute}
    (isModifier : x.isAttribute = false) (other : x.identifier? = none)
    (hd : d.changeLast modifier f = .ok d')
    (keeps : ∀ (y : Declaration) a, y.Declares a → y.Declares (f a)) : d'.Reads (x :: xs) := by
  obtain ⟨a, rest, last, rfl⟩ := changeLast_eq_ok hd
  exact h.change isModifier other last fun y => keeps y a

theorem Reads.changeAssociation (h : d.Reads xs) {x : Declaration} {f : Association → Association}
    {column : Option String} (isModifier : x.isAttribute = false) (other : x.identifier? = none)
    (hd : d.changeAssociation modifier f column = .ok d')
    (keeps : ∀ r, (f r).kind = r.kind ∧ (f r).target = r.target) : d'.Reads (x :: xs) := by
  obtain ⟨a, rest, r, last, known, rfl⟩ := changeAssociation_eq_ok hd
  refine h.change isModifier other last fun y declares => ?_
  exact declares.changed known (keeps r).1 (keeps r).2 _

theorem Reads.declare (h : d.Reads xs) {x : Declaration} (hd : d.declare x = .ok d') :
    d'.Reads (x :: xs) := by
  cases x with
  | id name type =>
    cases hd
    exact ⟨.cons ⟨rfl, rfl, rfl⟩ h.attributes, rfl⟩
  | scalar =>
    cases hd
    exact h.push rfl rfl ⟨rfl, rfl⟩
  | association =>
    cases hd
    exact h.push rfl rfl ⟨rfl, _, rfl, rfl, rfl⟩
  | map =>
    cases hd
    exact h.push rfl rfl ⟨rfl, _, rfl, rfl, rfl⟩
  | collection =>
    cases hd
    exact h.push rfl rfl ⟨rfl, _, rfl, rfl⟩
  | column name => exact h.changeLast rfl rfl hd fun _ _ declares => declares.column name
  | notNull => exact h.changeLast rfl rfl hd fun _ _ declares => declares.notNull
  | elementTable table ownerColumn =>
    exact h.changeLast rfl rfl hd fun _ _ declares => declares.storedIn table ownerColumn
  | inverse | mappedBy | joinColumn | joinTable =>
    exact h.changeAssociation rfl rfl hd fun _ => ⟨rfl, rfl⟩

theorem Reads.foldlM (h : d.Reads xs) {ys : List Declaration}
    (hd : ys.foldlM Draft.declare d = .ok d') : d'.Reads (ys.reverse ++ xs) := by
  induction ys generalizing d xs with
  | nil =>
    cases hd
    exact h
  | cons y ys ih =>
    rw [List.foldlM_cons] at hd
    obtain ⟨next, hnext, hd⟩ := bind_eq_ok.mp hd
    rw [List.reverse_cons, List.append_assoc]
    exact ih (h.declare hnext) hd

/-- No declaration changes the name of the entity or its table. -/
theorem declare_same {x : Declaration} (hd : d.declare x = .ok d') :
    d'.name = d.name ∧ d'.table = d.table := by
  cases x with
  | id | scalar | association | map | collection =>
    cases hd
    exact ⟨rfl, rfl⟩
  | column | notNull | elementTable =>
    obtain ⟨_, _, _, rfl⟩ := changeLast_eq_ok hd
    exact ⟨rfl, rfl⟩
  | inverse | mappedBy | joinColumn | joinTable =>
    obtain ⟨_, _, _, _, _, rfl⟩ := changeAssociation_eq_ok hd
    exact ⟨rfl, rfl⟩

theorem foldlM_same {ys : List Declaration} (hd : ys.foldlM Draft.declare d = .ok d') :
    d'.name = d.name ∧ d'.table = d.table := by
  induction ys generalizing d with
  | nil =>
    cases hd
    exact ⟨rfl, rfl⟩
  | cons y ys ih =>
    rw [List.foldlM_cons] at hd
    obtain ⟨next, hnext, hd⟩ := bind_eq_ok.mp hd
    obtain ⟨name, table⟩ := declare_same hnext
    exact ⟨(ih hd).1.trans name, (ih hd).2.trans table⟩

end Draft

/-! ## Entities -/

/-- The attribute that identifies the records is there, and a scalar. -/
def Entity.Identified (e : Entity) : Prop := ∃ a, e.attribute? e.id = some a ∧ a.ScalarNamed e.id

/-- What a draft describes, if its attributes have different names. -/
theorem Draft.entity_eq_ok {d : Draft} {e : Entity} (h : d.entity = .ok e) :
    ∃ id, d.id = some id ∧ (d.attributes.reverse.map (·.name)).Nodup ∧
      e = ⟨d.name, d.table, id, d.attributes.reverse⟩ := by
  unfold Draft.entity at h
  dsimp only at h
  split at h
  · cases h
  · next id hid =>
    split at h
    · cases h
    · next unique =>
      cases h
      exact ⟨id, hid, (firstRepeated_eq_none_iff.mp unique).1, rfl⟩

/-- No two attributes have the same name. -/
def Entity.Distinct (e : Entity) : Prop := (e.attributes.map (·.name)).Nodup

theorem Entity.Distinct.attribute? {e : Entity} (h : e.Distinct) {a : Attribute}
    (ha : a ∈ e.attributes) : e.attribute? a.name = some a := by
  obtain ⟨b, hb⟩ : ∃ b, e.attributes.find? (·.name = a.name) = some b :=
    Option.isSome_iff_exists.mp (List.find?_isSome.mpr ⟨a, ha, decide_eq_true rfl⟩)
  have same : b = a := List.inj_on_of_nodup_map h (List.mem_of_find?_eq_some hb) ha
    (by simpa using List.find?_some hb)
  exact same ▸ hb

namespace EntityDeclaration

variable {x : EntityDeclaration} {e : Entity}

/-- The entity is what the declarations describe: its attributes are those declared, in their order,
and its identifier is the one declared last. -/
structure Describes (x : EntityDeclaration) (e : Entity) : Prop where
  name : e.name = x.name
  table : e.table = x.table
  attributes : List.Forall₂ (fun y a => y.Declares a) (x.declarations.filter (·.isAttribute))
    e.attributes
  id : x.declarations.reverse.findSome? (·.identifier?) = some e.id

theorem describes_of_entity (h : x.entity = .ok e) : x.Describes e := by
  obtain ⟨d, hd, h⟩ := bind_eq_ok.mp h
  obtain ⟨id, hid, -, rfl⟩ := Draft.entity_eq_ok h
  have start : Draft.Reads ⟨x.name, x.table, none, []⟩ [] := ⟨.nil, rfl⟩
  have reads := start.foldlM hd
  obtain ⟨name, table⟩ := Draft.foldlM_same hd
  rw [List.append_nil] at reads
  refine ⟨name, table, ?_, reads.id.symm.trans hid⟩
  have attributes := List.rel_reverse reads.attributes
  rwa [← List.filter_reverse, List.reverse_reverse] at attributes

theorem distinct_of_entity (h : x.entity = .ok e) : e.Distinct := by
  obtain ⟨d, -, h⟩ := bind_eq_ok.mp h
  obtain ⟨id, -, distinct, rfl⟩ := Draft.entity_eq_ok h
  exact distinct

/-- Declaring the identifier has made an attribute of its name, a scalar that is never null. -/
theorem Describes.exists_identifier (h : x.Describes e) :
    ∃ a ∈ e.attributes, ∃ type, a.name = e.id ∧ a.kind = .scalar type ∧ a.nullable = false := by
  obtain ⟨y, hy, identifier⟩ := List.exists_of_findSome?_eq_some h.id
  cases y with
  | id name type =>
    cases identifier
    have declared : Declaration.id e.id type ∈ x.declarations.filter (·.isAttribute) :=
      List.mem_filter.mpr ⟨List.mem_reverse.mp hy, rfl⟩
    obtain ⟨a, ha, named, kind, notNull⟩ := exists_of_forall₂ h.attributes.flip declared
    exact ⟨a, ha, type, named, kind, notNull⟩
  | _ => cases identifier

theorem identified_of_entity (h : x.entity = .ok e) : e.Identified := by
  obtain ⟨a, ha, type, named, kind, -⟩ := (describes_of_entity h).exists_identifier
  exact ⟨a, named ▸ (distinct_of_entity h).attribute? ha, named, type, kind⟩

end EntityDeclaration

namespace Schema

/-- Entities are read in turn, and no name is taken twice. -/
theorem declareEntities_eq_ok {known : List Entity} {xs : List EntityDeclaration}
    {all : List Entity} (h : declareEntities known xs = .ok all) :
    ∃ read, all = known ++ read ∧ List.Forall₂ (fun x e => x.entity = .ok e) xs read ∧
      ((known.map (·.name)).Nodup → (all.map (·.name)).Nodup) := by
  induction xs generalizing known with
  | nil =>
    cases h
    exact ⟨[], (List.append_nil _).symm, .nil, fun distinct => distinct⟩
  | cons x xs ih =>
    obtain ⟨e, he, h⟩ := bind_eq_ok.mp h
    split at h
    · cases h
    · next fresh =>
      obtain ⟨read, rfl, described, unique⟩ := ih h
      refine ⟨e :: read, List.append_assoc .., .cons he described, fun distinct => unique ?_⟩
      rw [List.map_append, List.map_singleton, List.nodup_append_comm, List.singleton_append]
      exact List.nodup_cons.mpr ⟨fresh, distinct⟩

variable {entities : List EntityDeclaration} {s : Schema}

/-- The entities of a declared schema are described by the declarations, one by each. -/
theorem forall₂_of_declare (h : declare entities = .ok s) :
    List.Forall₂ (fun x e => x.entity = .ok e) entities s.entities ∧
      (s.entities.map (·.name)).Nodup := by
  obtain ⟨all, hall, h⟩ := bind_eq_ok.mp h
  obtain ⟨read, rfl, described, unique⟩ := declareEntities_eq_ok hall
  dsimp only at h
  split at h
  · cases h
  · cases h
    exact ⟨described, unique List.nodup_nil⟩

/-- Every entity of a declared schema is described by a declaration. -/
theorem described_of_declare (h : declare entities = .ok s) :
    ∀ e ∈ s.entities, ∃ x ∈ entities, x.entity = .ok e :=
  fun _ he => exists_of_forall₂ (forall₂_of_declare h).1 he

/-- In a declared schema records are identified by a scalar. -/
theorem identified_of_declare (h : declare entities = .ok s) :
    ∀ e ∈ s.entities, e.Identified := by
  intro e he
  obtain ⟨x, -, described⟩ := described_of_declare h e he
  exact EntityDeclaration.identified_of_entity described

theorem distinct_of_declare (h : declare entities = .ok s) : ∀ e ∈ s.entities, e.Distinct := by
  intro e he
  obtain ⟨x, -, described⟩ := described_of_declare h e he
  exact EntityDeclaration.distinct_of_entity described

end Schema

end EntityQuery
