import EntityQuery.Proofs.Path.Ways

/-!
# The types of what paths read

A path that has been resolved reads a column that the rows at its end have (`RowKind.Has`): an
attribute of an entity, the key or the value of a map, an element of a collection. **The type it is
resolved to is the one that the schema declares for that column** (`Schema.resolve_hasType`).

What the rows are is found from both ends and comes to the same: along the steps of the path
(`rowsAfter?`), where the route ends at rows that have its column (`has_route`), and at the source
where the attribute is read (`rowsAt?`), which the joins of the path lead to (`Way.rowsAt?`).
-/

namespace EntityQuery

open EntityQuery.Path

/-- What rows are: records of an entity, entries of a map or elements of a collection. -/
inductive RowKind where
  | entity (e : Entity)
  | map (t : MapTable)
  | collection (t : CollectionTable)
deriving DecidableEq

/-- Rows of this kind have the column, declared with the type. -/
inductive RowKind.Has : RowKind → Column → ScalarType → Prop where
  | scalar {e : Entity} {name : String} {a : Attribute} {type : ScalarType}
      (declared : e.attribute? name = some a) (scalar : a.kind = .scalar type) :
      Has (.entity e) (.attribute a.name a.column) type
  | identifier (e : Entity) :
      Has (.entity e) (.attribute e.idAttribute.name e.idAttribute.column) e.idType
  | key (t : MapTable) : Has (.map t) .mapKey t.keyType
  | value (t : MapTable) : Has (.map t) .mapValue t.valueType
  | element (t : CollectionTable) : Has (.collection t) .element t.elementType

namespace Schema

/-- The rows to which an attribute leads. -/
def rowsOf? (s : Schema) (a : Attribute) : Option RowKind :=
  match a.kind with
  | .scalar _ => none
  | .association r => (s.entity? r.target).map .entity
  | .map t => some (.map t)
  | .collection t => some (.collection t)

/-- The rows to which a step leads. -/
def rowsAlong? (s : Schema) (step : Step) : Option RowKind := do
  let e ← s.entity? step.owner
  let a ← e.attribute? step.attr
  s.rowsOf? a

/-- The rows to which steps lead from the records of an entity. -/
def rowsAfter? (s : Schema) (e : Entity) (steps : List Step) : Option RowKind :=
  steps.getLast?.elim (some (.entity e)) s.rowsAlong?

variable {s : Schema} {e : Entity} {step : Step}

theorem rowsAlong?_eq_some_iff {kind : RowKind} :
    s.rowsAlong? step = some kind ↔
      ∃ a, s.attributeOf step.owner step.attr = .ok a ∧ s.rowsOf? a = some kind := by
  unfold rowsAlong?
  simp only [Option.bind_eq_bind, Option.bind_eq_some_iff, attributeOf_eq_ok_iff,
    entity_eq_ok_iff]
  constructor
  · rintro ⟨owner, howner, a, ha, hkind⟩
    exact ⟨a, ⟨owner, howner, ha⟩, hkind⟩
  · rintro ⟨a, ⟨owner, howner, ha⟩, hkind⟩
    exact ⟨owner, howner, a, ha, hkind⟩

/-- After a step to an entity it does not matter where that step came from. -/
theorem rowsAfter?_cons {target : Entity} (leads : s.rowsAlong? step = some (.entity target))
    (steps : List Step) : s.rowsAfter? e (step :: steps) = s.rowsAfter? target steps := by
  cases steps with
  | nil => exact leads
  | cons next rest =>
    rw [rowsAfter?, List.getLast?_cons_cons, List.getLast?_cons]
    rw [rowsAfter?, List.getLast?_cons]
    rfl

/-- A route ends at rows that have the column it names, with the type it gives. -/
theorem has_route {path base : String} {segs : List String} {d : Destination}
    (he : s.entity e.name = .ok e) (h : (s.route path e base segs).2 = .ok d) :
    ∃ kind, s.rowsAfter? e (s.route path e base segs).1 = some kind ∧
      kind.Has d.column d.type := by
  induction segs generalizing e base with
  | nil => cases h
  | cons segment rest ih =>
    -- Whatever the step along this segment is called, it leads to the rows of its attribute.
    have along {a : Attribute} {here : String} {target : JoinTarget} {kind : RowKind}
        (ha : e.attribute? segment = some a) (hkind : s.rowsOf? a = some kind) :
        s.rowsAlong? ⟨here, e.name, segment, target⟩ = some kind :=
      rowsAlong?_eq_some_iff.mpr ⟨a, attributeOf_eq_ok_iff.mpr ⟨e, he, ha⟩, hkind⟩
    unfold route at h ⊢
    split at h
    · cases h
    · next a ha =>
      split at h
      · next type hk =>
        split at h
        · cases h
          dsimp only
          rw [if_pos ‹_›]
          exact ⟨.entity e, rfl, .scalar ha hk⟩
        · cases h
      · next r hk =>
        split at h
        · cases h
        · next target htarget =>
          have leads : s.rowsOf? a = some (.entity target) := by
            simp [rowsOf?, hk, entity_eq_ok_iff.mp htarget]
          have name := name_of_entity htarget
          dsimp only
          split at h
          · cases h
            exact ⟨.entity target, along ha leads, .identifier target⟩
          · next next rest =>
            obtain ⟨kind, hkind, has⟩ := ih (name ▸ htarget) h
            refine ⟨kind, ?_, has⟩
            rw [← hkind]
            exact rowsAfter?_cons (along ha leads) _
      · next t hk =>
        have leads : s.rowsOf? a = some (.map t) := by simp [rowsOf?, hk]
        dsimp only
        split at h
        · cases h
          exact ⟨.map t, along ha leads, .key t⟩
        · cases h
          exact ⟨.map t, along ha leads, .value t⟩
        · cases h
      · next t hk =>
        have leads : s.rowsOf? a = some (.collection t) := by simp [rowsOf?, hk]
        dsimp only
        split at h
        · next none =>
          cases h
          rw [if_pos none]
          exact ⟨.collection t, along ha leads, .element t⟩
        · cases h

end Schema

/-! ## Where joins lead -/

namespace Joins

/-- What the rows of a source are. -/
def rowsAt? (s : Schema) (root : Entity) (joins : Joins) : Source → Option RowKind
  | .root => some (.entity root)
  | .join id => joins[id]?.bind fun j => s.rowsAlong? j.step

variable {s : Schema} {root : Entity} {joins joins' : Joins} {source destination : Source}
  {way : List JoinNode} {kind : RowKind}

theorem rowsAt?_mono (h : joins.rowsAt? s root source = some kind) (grown : joins <+: joins') :
    joins'.rowsAt? s root source = some kind := by
  cases source with
  | root => exact h
  | join id =>
    obtain ⟨j, hj, hkind⟩ := Option.bind_eq_some_iff.mp h
    exact Option.bind_eq_some_iff.mpr ⟨j, getElem?_mono grown hj, hkind⟩

/-- A way without joins stays where it is; any other ends at the last of its joins. -/
theorem Way.last (h : joins.Way source way destination) :
    way = [] ∧ destination = source ∨
      ∃ j, way.getLast? = some j ∧ destination = .join j.id ∧ joins[j.id]? = some j := by
  induction h with
  | here => exact .inl ⟨rfl, rfl⟩
  | @step j rest destination hj way ih =>
    right
    rcases ih with ⟨rfl, rfl⟩ | ⟨k, hk, rfl, hget⟩
    · exact ⟨j, rfl, rfl, hj⟩
    · exact ⟨k, by rw [List.getLast?_cons, hk]; rfl, rfl, hget⟩

/-- The rows at the end of a way are those to which its steps lead. -/
theorem Way.rowsAt? (h : joins.Way .root way destination) :
    joins.rowsAt? s root destination = s.rowsAfter? root (way.map JoinNode.step) := by
  unfold Schema.rowsAfter?
  rw [List.getLast?_map]
  rcases h.last with ⟨rfl, rfl⟩ | ⟨j, hlast, rfl, hj⟩
  · rfl
  · rw [hlast]
    show joins[j.id]?.bind _ = _
    rw [hj]
    rfl

/-- A join goes from the records of the entity that has its attribute. -/
theorem Sound.rowsAt?_parent (sound : joins.Sound s root) (hroot : s.entity root.name = .ok root)
    {i : Nat} {j : JoinNode} (hj : joins[i]? = some j) :
    ∃ e, s.entity j.owner = .ok e ∧ joins.rowsAt? s root j.parent = some (.entity e) := by
  obtain ⟨init, segment, segments, hstep, stands⟩ := (sound.nodes i j hj).step
  obtain ⟨e, _, _, he, _, _, step⟩ := Schema.stepTo?_eq_some_iff.mp hstep
  have owner : j.owner = e.name := congrArg Step.owner step
  refine ⟨e, owner ▸ Schema.entity_via? hroot he, ?_⟩
  cases hp : j.parent with
  | root =>
    rw [hp] at stands
    rw [show init = [] from stands] at he
    cases he
    rfl
  | join p =>
    -- The path of the parent is that of this join without its last segment.
    rw [hp] at stands
    obtain ⟨k, hk, path⟩ := stands
    obtain ⟨init', segment', segments', hstep', _⟩ := (sound.nodes p k hk).step
    have here := Schema.path_of_stepTo? hstep'
    obtain ⟨d, a, _, hd, ha, _, step'⟩ := Schema.stepTo?_eq_some_iff.mp hstep'
    have same : init' ++ [segment'] = init :=
      ofSegments_inj segments' (fun x hx => segments x (List.mem_append_left _ hx))
        (here.symm.trans path)
    rw [← same, Schema.via?_concat hd] at he
    simp only [Schema.next?, Option.bind_eq_bind, Option.bind_eq_some_iff] at he
    obtain ⟨a', ha', r, association, target⟩ := he
    cases ha.symm.trans ha'
    have leads : s.rowsOf? a = some (.entity e) := by
      simp [Schema.rowsOf?, Attribute.association?_eq_some_iff.mp association, target]
    refine Option.bind_eq_some_iff.mpr ⟨k, hk, ?_⟩
    rw [step']
    exact Schema.rowsAlong?_eq_some_iff.mpr
      ⟨a, Schema.attributeOf_eq_ok_iff.mpr ⟨d, Schema.entity_via? hroot hd, ha⟩, leads⟩

end Joins

/-- The attribute is read of rows that have it, and declared with the type. -/
def AttrRef.HasType (s : Schema) (root : Entity) (joins : Joins) (a : AttrRef)
    (type : ScalarType) : Prop :=
  ∃ kind, joins.rowsAt? s root a.source = some kind ∧ kind.Has a.column type

theorem AttrRef.HasType.mono {s : Schema} {root : Entity} {joins joins' : Joins} {a : AttrRef}
    {type : ScalarType} (h : a.HasType s root joins type) (grown : joins <+: joins') :
    a.HasType s root joins' type := by
  obtain ⟨kind, hkind, has⟩ := h
  exact ⟨kind, Joins.rowsAt?_mono hkind grown, has⟩

/-- A path is resolved to the type that its attribute is declared with. -/
theorem Schema.resolve_hasType {s : Schema} {name path : String} {root : Entity}
    {joins joins' : Joins} {r : ResolvedPath} (hroot : s.entity name = .ok root)
    (sound : joins.Sound s root) (h : s.resolve name path joins = (.ok r, joins')) :
    r.attr.HasType s root joins' r.type := by
  obtain ⟨steps, d, way, route, read, leads, rfl⟩ := resolve_way hroot sound h
  have he : s.entity root.name = .ok root := name_of_entity hroot ▸ hroot
  obtain ⟨kind, hkind, has⟩ := has_route he (congrArg Prod.snd route)
  rw [route, ← leads.rowsAt?] at hkind
  rw [read] at hkind ⊢
  exact ⟨kind, hkind, has⟩

end EntityQuery
