import EntityQuery.Proofs.Dataset.Reach
import EntityQuery.Proofs.Dataset.Related
import EntityQuery.Proofs.Filter.Soundness
import EntityQuery.Proofs.Preparation
import EntityQuery.Proofs.Schema.Identifiers

/-!
# Typed datasets

In a dataset whose values are of the types they are declared with (`Dataset.Typed`), every binding
gives each join a row of the kind to which the join leads (`of_row`), and so whatever is read at a
binding is of the type of the path that it is read by (`stores_value`). **No comparison of a
compiled filter goes wrong on such a dataset, neither at a binding nor in a group**
(`comparisons_do_not_go_wrong`).

Which comparisons are made while a record is tested is `Evaluator.compared`, with the values on
their sides. It is tied to the evaluation by `Tests`: where the truth of a predicate is unknown, so
is that of one of the comparisons made for it (`Tests.exists_unknown`), and this one compares a null
in a way that has no answer to nulls.
-/

namespace EntityQuery

/-! ## Types of what is stored -/

namespace Dataset

/-- The rows of a map or a collection that belong to a record. -/
def elementsOf (d : Dataset) (table : String) (r : Record) : List ElementRow :=
  (d.elementRows table).filter (·.owner.key = r.key)

end Dataset

/-- What the dataset has for the attribute of a record is null, or a finite value of the type with
which it is declared. -/
def Attribute.Stored (d : Dataset) (r : Record) (a : Attribute) : Prop :=
  match a.kind with
  | .scalar type => type.Stores (r.field a.name)
  | .association _ => True
  | .map t =>
    ∀ row ∈ d.elementsOf t.table r, t.keyType.Stores row.key ∧ t.valueType.Stores row.value
  | .collection t => ∀ row ∈ d.elementsOf t.table r, t.elementType.Stores row.value

/-- Every value of every record is of the type with which it is declared. -/
def Dataset.Typed (s : Schema) (d : Dataset) : Prop :=
  ∀ e ∈ s.entities, ∀ r ∈ d.rows e.name, ∀ a ∈ e.attributes, a.Stored d r

/-- The dataset has the row, and it is of this kind. -/
inductive RowKind.Of (s : Schema) (d : Dataset) : RowKind → Row → Prop
  | entity {e : Entity} {r : Record} (known : e ∈ s.entities) (stored : r ∈ d.rows e.name) :
      Of s d (.entity e) (.entity r)
  | map {e : Entity} {r : Record} {a : Attribute} {t : MapTable} {row : ElementRow}
      (known : e ∈ s.entities) (stored : r ∈ d.rows e.name) (declared : a ∈ e.attributes)
      (kind : a.kind = .map t) (owned : row ∈ d.elementsOf t.table r) :
      Of s d (.map t) (.element row)
  | collection {e : Entity} {r : Record} {a : Attribute} {t : CollectionTable} {row : ElementRow}
      (known : e ∈ s.entities) (stored : r ∈ d.rows e.name) (declared : a ∈ e.attributes)
      (kind : a.kind = .collection t) (owned : row ∈ d.elementsOf t.table r) :
      Of s d (.collection t) (.element row)

section

variable {s : Schema} {d : Dataset} {kind : RowKind} {row : Row}

/-- A column that rows of a kind have is of its type in each of them. -/
theorem RowKind.Of.stores (typed : d.Typed s) (identified : ∀ e ∈ s.entities, e.Identified)
    (h : kind.Of s d row) {column : Column} {type : ScalarType} (has : kind.Has column type) :
    type.Stores (row.read column) := by
  cases has with
  | @scalar e name a type declared scalar =>
    cases h with
    | entity known stored =>
      have here := typed e known _ stored a (Entity.mem_of_attribute? declared)
      rw [Attribute.Stored, scalar] at here
      exact here
  | identifier e =>
    cases h with
    | entity known stored =>
      obtain ⟨a, ha, _, type, scalar⟩ := identified e known
      have here := typed e known _ stored a (Entity.mem_of_attribute? ha)
      rw [Attribute.Stored, scalar] at here
      have id : e.idAttribute = a := by rw [Entity.idAttribute, ha, Option.getD_some]
      have idType : e.idType = type := by
        rw [Entity.idType, id, Attribute.scalarType?, scalar, Option.getD_some]
      rw [idType, id]
      exact here
  | key t =>
    cases h with
    | map known stored declared kind owned =>
      have here := typed _ known _ stored _ declared
      rw [Attribute.Stored, kind] at here
      exact (here _ owned).1
  | value t =>
    cases h with
    | map known stored declared kind owned =>
      have here := typed _ known _ stored _ declared
      rw [Attribute.Stored, kind] at here
      exact (here _ owned).2
  | element t =>
    cases h with
    | collection known stored declared kind owned =>
      have here := typed _ known _ stored _ declared
      rw [Attribute.Stored, kind] at here
      exact here _ owned

/-! ## Rows that are reached -/

theorem Dataset.mem_rows_of_targetsOf {target attr : String} {owner r : Record} {l : Link}
    (h : r ∈ d.targetsOf target attr owner l) : r ∈ d.rows target := by
  cases l with
  | identity => exact mem_rows_of_find? (Option.mem_toList.mp h)
  | foreignKey | joinTable =>
    obtain ⟨x, hx, rfl⟩ := List.mem_map.mp h
    exact (mem_relatedTo hx).1

/-- A step leads to rows of the kind that the schema says. -/
theorem Dataset.of_mem_along {step : Step} {e : Entity} {a : Attribute}
    (he : s.entity step.owner = .ok e) (ha : e.attribute? step.attr = some a)
    (target : s.target? a = some step.target) (rows : s.rowsOf? a = some kind) {parent : Record}
    (stored : parent ∈ d.rows e.name) (h : row ∈ d.along s step parent) : kind.Of s d row := by
  have attributeOf := Schema.attributeOf_eq_ok_iff.mpr ⟨e, he, ha⟩
  have known := List.mem_of_find?_eq_some (Schema.entity_eq_ok_iff.mp he)
  have declared := Entity.mem_of_attribute? ha
  unfold along at h
  rw [attributeOf] at h
  unfold Schema.target? at target
  unfold Schema.rowsOf? at rows
  obtain ⟨name, column, nullable, attributeKind⟩ := a
  cases attributeKind with
  | scalar => cases rows
  | association r =>
    obtain ⟨t, ht, rfl⟩ := Option.map_eq_some_iff.mp rows
    obtain ⟨t', ht', leads⟩ := Option.map_eq_some_iff.mp target
    cases ht.symm.trans ht'
    rw [← leads] at h
    dsimp only at h
    split at h
    · obtain ⟨r', hr', rfl⟩ := List.mem_map.mp h
      exact .entity (List.mem_of_find?_eq_some ht) (mem_rows_of_targetsOf hr')
    · cases h
  | map t =>
    cases rows
    rw [← Option.some.inj target] at h
    obtain ⟨element, owned, rfl⟩ := List.mem_map.mp h
    exact .map known stored declared rfl owned
  | collection t =>
    cases rows
    rw [← Option.some.inj target] at h
    obtain ⟨element, owned, rfl⟩ := List.mem_map.mp h
    exact .collection known stored declared rfl owned

end

namespace Evaluator

variable {d : Dataset} {s : Schema} {q : Selection} {ev : Evaluator} {root : Record} {e : Entity}
  {b : Binding}

/-- The row of a join is one to which the join leads from the record of its parent. -/
theorem exists_parent_of_mem_expand (hev : Evaluator.of d s q = .ok ev)
    (sound : q.joins.Sound s e) (hb : b ∈ ev.expand root) {id : Nat} {j : JoinNode}
    (hj : q.joins[id]? = some j) {x : Row} (hx : row root b (.join id) = some x) :
    ∃ parent, row root b j.parent = some (.entity parent) ∧ x ∈ d.along s j.step parent := by
  have mem := List.mem_of_getElem? hj
  have number : j.id = id := (sound.nodes id j hj).id
  rw [expand_eq, joins_of hev] at hb
  obtain ⟨o, ho, place⟩ := ((mem_expandFrom_iff (inTurn_of_sound sound)
    fun k hk => getElem?_blank (sound.getElem?_id hk)).mp hb).2 j mem
  have given : o = some x := by
    change b[id]?.join = some x at hx
    rw [← number, place] at hx
    exact hx
  rw [given] at ho
  have reached : x ∈ ev.reach root j b := by
    unfold options at ho
    split at ho
    · cases List.mem_singleton.mp ho
    · obtain ⟨y, hy, same⟩ := List.mem_map.mp ho
      cases same
      exact hy
  unfold reach at reached
  split at reached
  · next parent hparent =>
    rw [number, children_of hev hj] at reached
    exact ⟨parent, hparent, reached⟩
  · cases reached

variable (hev : Evaluator.of d s q = .ok ev) (sound : q.joins.Sound s e)
  (he : s.entity e.name = .ok e) (stored : root ∈ d.rows e.name)

include hev sound he stored

/-- At a binding every source has a row of the kind that the schema says, if it has one. -/
theorem of_row (hb : b ∈ ev.expand root) {source : Source} {kind : RowKind}
    (hkind : q.joins.rowsAt? s e source = some kind) {x : Row} (hx : row root b source = some x) :
    kind.Of s d x := by
  have atRoot {kind : RowKind} {x : Row} (hkind : q.joins.rowsAt? s e .root = some kind)
      (hx : row root b .root = some x) : kind.Of s d x := by
    cases hkind
    cases hx
    exact .entity (List.mem_of_find?_eq_some (Schema.entity_eq_ok_iff.mp he)) stored
  cases source with
  | root => exact atRoot hkind hx
  | join id =>
    -- The parent of a join has a smaller number.
    induction id using Nat.strong_induction_on generalizing kind x with
    | _ id ih =>
      obtain ⟨j, hj, along⟩ := Option.bind_eq_some_iff.mp hkind
      obtain ⟨a, ha, rows⟩ := Schema.rowsAlong?_eq_some_iff.mp along
      obtain ⟨a', ha', target⟩ := sound.attributeOf he hj
      cases ha.symm.trans ha'
      obtain ⟨owner, howner, ha⟩ := Schema.attributeOf_eq_ok_iff.mp ha
      obtain ⟨owner', howner', parentKind⟩ := sound.rowsAt?_parent he hj
      cases howner.symm.trans howner'
      obtain ⟨parent, hparent, reached⟩ := exists_parent_of_mem_expand hev sound hb hj hx
      have parentOf : (RowKind.entity owner).Of s d (.entity parent) := by
        cases hp : j.parent with
        | root =>
          rw [hp] at parentKind hparent
          exact atRoot parentKind hparent
        | join p =>
          rw [hp] at parentKind hparent
          exact ih p ((sound.nodes id j hj).earlier p hp) parentKind hparent
      cases parentOf with
      | entity _ stored => exact Dataset.of_mem_along howner ha target rows stored reached

variable (typed : d.Typed s) (identified : ∀ e ∈ s.entities, e.Identified)

include typed identified

/-- What is read by a path is of its type. -/
theorem stores_value (hb : b ∈ ev.expand root) {a : AttrRef} {type : ScalarType}
    (read : a.HasType s e q.joins type) : type.Stores (value root b a) := by
  obtain ⟨kind, hkind, has⟩ := read
  rw [value_eq]
  cases hx : row root b a.source with
  | none => exact .inl rfl
  | some x => exact (of_row hev sound he stored hb hkind hx).stores typed identified has

/-! ## What is compared -/

theorem takes_rowOperand (hb : b ∈ ev.expand root) {o : Operand} {type : ScalarType}
    (single : o.isAggregate = false) (typedOperand : o.HasType s e q.joins type) :
    ∃ v, rowOperand root b o = .one v ∧ type.Takes v := by
  cases typedOperand with
  | attr read =>
    exact ⟨_, rfl, (stores_value hev sound he stored typed identified hb read).takes⟩
  | aggregate => cases single

theorem takes_groupOperand {group : List Binding} (within : ∀ b ∈ group, b ∈ ev.expand root)
    {o : Operand} {type : ScalarType} (typedOperand : o.HasType s e q.joins type) :
    ∃ v, groupOperand root group o = .one v ∧ type.Takes v := by
  have stores {a : AttrRef} {type : ScalarType} (read : a.HasType s e q.joins type) :
      ∀ b ∈ group, type.Stores (value root b a) :=
    fun b hb => stores_value hev sound he stored typed identified (within b hb) read
  cases typedOperand with
  | @attr a _ read =>
    refine ⟨_, rfl, ?_⟩
    cases group with
    | nil => exact .null
    | cons b group => exact (stores read b List.mem_cons_self).takes
  | aggregate read result =>
    refine ⟨_, rfl, Aggregate.takes_apply result fun v hv => ?_⟩
    obtain ⟨b, hb, rfl⟩ := List.mem_map.mp hv
    exact stores read b hb

omit hev sound he stored typed identified in
theorem mem_of_mem_groups {groupBy : List AttrRef} {bindings group : List Binding}
    (hgroup : group ∈ groups root groupBy bindings) : ∀ b ∈ group, b ∈ bindings := by
  intro b hb
  obtain ⟨key, _, rfl⟩ := List.mem_map.mp hgroup
  exact List.mem_of_mem_filter hb

omit hev sound he stored typed identified in
theorem ne_nil_of_mem_groups {groupBy : List AttrRef} {bindings group : List Binding}
    (hgroup : group ∈ groups root groupBy bindings) : group ≠ [] := by
  obtain ⟨key, hkey, rfl⟩ := List.mem_map.mp hgroup
  obtain ⟨b, hb, same⟩ := List.mem_map.mp (List.mem_eraseDups.mp hkey)
  exact List.ne_nil_of_mem (List.mem_filter.mpr ⟨hb, by simpa using same⟩)

end Evaluator

/-! ## What is compared while a record is tested -/

namespace Truth

variable {a b : Truth} {values : List Truth}

theorem unknown_of_and (h : a.and b = unknown) : a = unknown ∨ b = unknown := by
  cases a with
  | unknown => exact .inl rfl
  | fails => cases h
  | holds =>
    cases b with
    | unknown => exact .inr rfl
    | holds | fails => cases h

theorem unknown_of_or (h : a.or b = unknown) : a = unknown ∨ b = unknown := by
  cases a with
  | unknown => exact .inl rfl
  | holds => cases h
  | fails =>
    cases b with
    | unknown => exact .inr rfl
    | holds | fails => cases h

theorem unknown_of_not (h : a.not = unknown) : a = unknown := by
  cases a with
  | unknown => rfl
  | holds | fails => cases h

theorem unknown_of_any (h : any values = unknown) {t : Truth} (ht : t ∈ values) :
    t = unknown := by
  unfold any at h
  split at h
  · cases h
  · next noneHolds =>
    split at h
    · cases h
    · next noneFails =>
      cases t with
      | unknown => rfl
      | holds => exact absurd ht noneHolds
      | fails => exact absurd ht noneFails

end Truth

/-- A comparison with what its sides stand for. -/
structure Compared where
  comparison : Comparison
  left : OperandValue
  right : OperandValue

/-- The truth of the comparison. -/
def Compared.truth (x : Compared) : Truth := x.comparison.truth x.left x.right

theorem Compared.exists_unknown_append {xs ys : List Compared}
    (h : (∃ x ∈ xs, x.truth = .unknown) ∨ ∃ y ∈ ys, y.truth = .unknown) :
    ∃ x ∈ xs ++ ys, x.truth = .unknown := by
  rcases h with ⟨x, hx, unknown⟩ | ⟨y, hy, unknown⟩
  · exact ⟨x, List.mem_append_left ys hx, unknown⟩
  · exact ⟨y, List.mem_append_right xs hy, unknown⟩

namespace Evaluator

/-- What is compared to find the truth of a predicate at a binding. -/
def rowCompared (root : Record) (b : Binding) (p : Predicate) : List Compared :=
  p.leaves.map fun c => ⟨c, rowOperand root b c.left, rowOperand root b c.right⟩

/-- What is compared to find the truth of a predicate in a group. -/
def groupCompared (root : Record) (group : List Binding) (p : Predicate) : List Compared :=
  if p.isAggregate then
    match p with
    | .and p q => groupCompared root group p ++ groupCompared root group q
    | .or p q => groupCompared root group p ++ groupCompared root group q
    | .not p => groupCompared root group p
    | .leaf c => [⟨c, groupOperand root group c.left, groupOperand root group c.right⟩]
  else group.flatMap fun b => rowCompared root b p

/-- What is compared to find out whether a record is kept. -/
def compared (ev : Evaluator) (q : Selection) (root : Record) : List Compared :=
  match q.predicate with
  | none => []
  | some p =>
    let bindings := ev.expand root
    if q.aggregate then
      (groups root q.groupBy bindings).flatMap fun group => groupCompared root group p
    else bindings.flatMap fun b => rowCompared root b p

/-- The predicate of a selection is asked for the truth of a record, at a binding or in a group, and
these comparisons are made for it. -/
inductive Tests (ev : Evaluator) (q : Selection) (root : Record) : Truth → List Compared → Prop
  | row {p : Predicate} {b : Binding} (predicate : q.predicate = some p)
      (single : q.aggregate = false) (binding : b ∈ ev.expand root) :
      Tests ev q root (rowTruth root b p) (rowCompared root b p)
  | group {p : Predicate} {group : List Binding} (predicate : q.predicate = some p)
      (aggregate : q.aggregate = true)
      (grouped : group ∈ groups root q.groupBy (ev.expand root)) :
      Tests ev q root (groupTruth root group p) (groupCompared root group p)

section

variable {root : Record} {b : Binding} {group : List Binding} {p : Predicate}

/-- Whether a predicate holds at a binding is unknown only if one of its comparisons is. -/
theorem exists_unknown_of_rowTruth (h : rowTruth root b p = .unknown) :
    ∃ x ∈ rowCompared root b p, x.truth = .unknown := by
  induction p with
  | leaf c => exact ⟨_, List.mem_singleton.mpr rfl, h⟩
  | not p ih => exact ih (Truth.unknown_of_not h)
  | and p q ihp ihq =>
    unfold rowCompared Formula.leaves
    rw [List.map_append]
    exact Compared.exists_unknown_append ((Truth.unknown_of_and h).imp ihp ihq)
  | or p q ihp ihq =>
    unfold rowCompared Formula.leaves
    rw [List.map_append]
    exact Compared.exists_unknown_append ((Truth.unknown_of_or h).imp ihp ihq)

/-- Whether a predicate holds in a group is unknown only if one of the comparisons made there is. -/
theorem exists_unknown_of_groupTruth (some_ : group ≠ [])
    (h : groupTruth root group p = .unknown) :
    ∃ x ∈ groupCompared root group p, x.truth = .unknown := by
  have rows {p : Predicate} (h : Truth.any (group.map fun b => rowTruth root b p) = .unknown) :
      ∃ x ∈ group.flatMap fun b => rowCompared root b p, x.truth = .unknown := by
    obtain ⟨b, hb⟩ := List.exists_mem_of_ne_nil group some_
    have unknown := Truth.unknown_of_any h (List.mem_map_of_mem hb)
    obtain ⟨x, hx, unknown⟩ := exists_unknown_of_rowTruth unknown
    exact ⟨x, List.mem_flatMap.mpr ⟨b, hb, hx⟩, unknown⟩
  induction p with
  | leaf c =>
    unfold groupTruth at h
    unfold groupCompared
    split at h
    · next aggregate =>
      rw [if_pos aggregate]
      exact ⟨_, List.mem_singleton.mpr rfl, h⟩
    · next single =>
      rw [if_neg single]
      exact rows h
  | not p ih =>
    unfold groupTruth at h
    unfold groupCompared
    split at h
    · next aggregate =>
      rw [if_pos aggregate]
      exact ih (Truth.unknown_of_not h)
    · next single =>
      rw [if_neg single]
      exact rows h
  | and p q ihp ihq =>
    unfold groupTruth at h
    unfold groupCompared
    split at h
    · next aggregate =>
      rw [if_pos aggregate]
      exact Compared.exists_unknown_append ((Truth.unknown_of_and h).imp ihp ihq)
    · next single =>
      rw [if_neg single]
      exact rows h
  | or p q ihp ihq =>
    unfold groupTruth at h
    unfold groupCompared
    split at h
    · next aggregate =>
      rw [if_pos aggregate]
      exact Compared.exists_unknown_append ((Truth.unknown_of_or h).imp ihp ihq)
    · next single =>
      rw [if_neg single]
      exact rows h

variable {ev : Evaluator} {q : Selection} {truth : Truth} {xs : List Compared}

theorem Tests.mem_compared (h : ev.Tests q root truth xs) {x : Compared} (hx : x ∈ xs) :
    x ∈ ev.compared q root := by
  unfold compared
  cases h with
  | row predicate single binding =>
    rw [predicate, single]
    exact List.mem_flatMap.mpr ⟨_, binding, hx⟩
  | group predicate aggregate grouped =>
    rw [predicate, aggregate]
    exact List.mem_flatMap.mpr ⟨_, grouped, hx⟩

theorem Tests.exists_unknown (h : ev.Tests q root truth xs) (unknown : truth = .unknown) :
    ∃ x ∈ xs, x.truth = .unknown := by
  cases h with
  | row => exact exists_unknown_of_rowTruth unknown
  | group _ _ grouped => exact exists_unknown_of_groupTruth (ne_nil_of_mem_groups grouped) unknown

end

/-- A comparison without functions is made at one of the bindings, any other in a group of them. -/
inductive ComparedAmong (root : Record) (bindings : List Binding) (x : Compared) : Prop
  | row {b : Binding} (single : x.comparison.isAggregate = false) (binding : b ∈ bindings)
      (left : x.left = rowOperand root b x.comparison.left)
      (right : x.right = rowOperand root b x.comparison.right)
  | group {bs : List Binding} (within : ∀ b ∈ bs, b ∈ bindings)
      (left : x.left = groupOperand root bs x.comparison.left)
      (right : x.right = groupOperand root bs x.comparison.right)

variable {root : Record} {bindings group : List Binding} {p : Predicate} {x : Compared}

theorem comparedAmong_of_row {b : Binding} (hb : b ∈ bindings) (single : p.isAggregate = false)
    (hx : x ∈ rowCompared root b p) :
    x.comparison ∈ p.leaves ∧ ComparedAmong root bindings x := by
  obtain ⟨c, hc, rfl⟩ := List.mem_map.mp hx
  refine ⟨hc, .row ?_ hb rfl rfl⟩
  show c.isAggregate = false
  by_contra total
  rw [Predicate.isAggregate_of_mem hc (by simpa using total)] at single
  cases single

theorem comparedAmong_of_group (within : ∀ b ∈ group, b ∈ bindings)
    (hx : x ∈ groupCompared root group p) :
    x.comparison ∈ p.leaves ∧ ComparedAmong root bindings x := by
  -- Without functions the predicate is tested at each binding of the group.
  have rows {p : Predicate} (single : p.isAggregate = false)
      (hx : x ∈ group.flatMap fun b => rowCompared root b p) :
      x.comparison ∈ p.leaves ∧ ComparedAmong root bindings x := by
    obtain ⟨b, hb, hx⟩ := List.mem_flatMap.mp hx
    exact comparedAmong_of_row (within b hb) single hx
  induction p with
  | and l r ihl ihr | or l r ihl ihr =>
    unfold groupCompared at hx
    split at hx
    · rcases List.mem_append.mp hx with hx | hx
      · exact ⟨List.mem_append_left _ (ihl hx).1, (ihl hx).2⟩
      · exact ⟨List.mem_append_right _ (ihr hx).1, (ihr hx).2⟩
    · next single => exact rows (by simpa using single) hx
  | not p ih =>
    unfold groupCompared at hx
    split at hx
    · exact ih hx
    · next single => exact rows (by simpa using single) hx
  | leaf c =>
    unfold groupCompared at hx
    split at hx
    · rw [List.mem_singleton.mp hx]
      exact ⟨List.mem_singleton.mpr rfl, .group within rfl rfl⟩
    · next single => exact rows (by simpa using single) hx

theorem comparedAmong_of_compared {s : Schema} {e : Entity} {f : CompiledFilter} {name : String}
    {ev : Evaluator} {q : Selection} (compiled : f.Compiled s e) (asks : q.Asks name f)
    (hx : x ∈ ev.compared q root) :
    x.comparison ∈ Formula.leavesOf f.predicate ∧ ComparedAmong root (ev.expand root) x := by
  unfold compared at hx
  rw [asks.predicate, asks.aggregate] at hx
  cases hp : f.predicate with
  | none =>
    rw [hp] at hx
    cases hx
  | some p =>
    rw [hp] at hx
    dsimp only at hx
    split at hx
    · obtain ⟨group, hgroup, hx⟩ := List.mem_flatMap.mp hx
      exact comparedAmong_of_group (mem_of_mem_groups hgroup) hx
    · next rows =>
      have single : p.isAggregate = false := by
        rw [compiled.eq, hp] at rows
        simpa [CompiledFilter.ofPredicate] using rows
      obtain ⟨b, hb, hx⟩ := List.mem_flatMap.mp hx
      exact comparedAmong_of_row hb single hx

end Evaluator

/-- **Compiled filters do not go wrong** on a typed dataset. The sides of every comparison that is
made are of the form that its operator asks for, and they can be compared unless one of them is
null. So it is unknown exactly if one of them is null, and it is no test for null, no comparison in
which nulls are equal and no search in an empty list; and where the filter as a whole is unknown,
one of the comparisons made for it is such a one. -/
theorem comparisons_do_not_go_wrong {entities : List EntityDeclaration} {s : Schema}
    {nullSafe : Bool} {filter name : String} {f : CompiledFilter} {q : Selection} {d : Dataset}
    {ev : Evaluator} {root : Record} (declared : Schema.declare entities = .ok s)
    (compiled : s.compileFilter nullSafe filter name = .ok f) (asks : q.Asks name f)
    (typed : d.Typed s) (hev : Evaluator.of d s q = .ok ev) (stored : root ∈ d.rows name) :
    (∀ x ∈ ev.compared q root, (∃ v, x.left = .one v ∧ x.comparison.Fits v x.right) ∧
        (x.truth = .unknown ↔ x.comparison.Open x.left x.right)) ∧
      ∀ truth xs, ev.Tests q root truth xs → truth = .unknown →
        ∃ x ∈ xs, x.comparison.Open x.left x.right := by
  have identified := Schema.identified_of_declare declared
  obtain ⟨e, he, types⟩ := Schema.compileFilter_hasType compiled
  obtain ⟨e', he', compiled⟩ := Schema.compileFilter_compiled compiled
  cases he.symm.trans he'
  have sound : q.joins.Sound s e := asks.joins ▸ compiled.joins
  have named := Schema.name_of_entity he
  rw [← named] at he stored
  have sides : ∀ x ∈ ev.compared q root, ∃ v, x.left = .one v ∧ x.comparison.Fits v x.right := by
    intro x reached
    obtain ⟨leaf, among⟩ := Evaluator.comparedAmong_of_compared compiled asks reached
    obtain ⟨type, types⟩ := types x.comparison leaf
    rw [← asks.joins] at types
    cases among with
    | row single binding left right =>
      rw [left, right]
      refine types.fits (fun o side type read => ?_) fun o unread => ?_
      · have single : o.isAggregate = false := by
          obtain ⟨singleLeft, singleRight⟩ := Bool.or_eq_false_iff.mp single
          rcases side with rfl | rfl
          · exact singleLeft
          · exact singleRight
        exact Evaluator.takes_rowOperand hev sound he stored typed identified binding single read
      · cases o <;> first | rfl | cases unread
    | group within left right =>
      rw [left, right]
      refine types.fits (fun o _ type read => ?_) fun o unread => ?_
      · exact Evaluator.takes_groupOperand hev sound he stored typed identified within read
      · cases o <;> first | rfl | cases unread
  have unknown_iff : ∀ x ∈ ev.compared q root,
      (x.truth = .unknown ↔ x.comparison.Open x.left x.right) := by
    intro x reached
    obtain ⟨v, hv, fits⟩ := sides x reached
    unfold Compared.truth
    rw [hv]
    exact Comparison.truth_eq_unknown_iff fits
  refine ⟨fun x reached => ⟨sides x reached, unknown_iff x reached⟩, ?_⟩
  intro truth xs tests unknown
  obtain ⟨x, hx, unknown⟩ := tests.exists_unknown unknown
  exact ⟨x, hx, (unknown_iff x (tests.mem_compared hx)).mp unknown⟩

namespace TwoSided

/-- The `a` of a record is the first one. -/
def ofFirst : Comparison :=
  ⟨.attr ⟨.join 0, .attribute "id" "id"⟩, .eq, false, false, .literal (.int 1)⟩

def filter : CompiledFilter :=
  ⟨some (.leaf ofFirst), [⟨0, .root, "B", "a", "a", .entity "A"⟩], false, []⟩

/-- A record that has no `a`. -/
def lone : Record := .new "B" "id" (.int 2)

def pair : Dataset := (Dataset.empty.insert (.new "A" "id" (.int 1))).insert lone

def evaluator : Evaluator := ⟨pair, filter.joins, [.link "A" .identity]⟩

theorem typed_pair : pair.Typed schema := by
  have stores (i : Int64) : ScalarType.integer.Stores (.int i) := .inr ⟨rfl, nofun⟩
  intro e he r hr a ha
  rcases List.mem_pair.mp he with rfl | rfl
  · rw [List.mem_singleton.mp hr]
    rcases List.mem_pair.mp ha with rfl | rfl
    · exact stores 1
    · trivial
  · rw [List.mem_singleton.mp hr]
    rcases List.mem_pair.mp ha with rfl | rfl
    · exact stores 2
    · trivial

end TwoSided

open TwoSided in
/-- Of a record that has no `a` it is unknown whether its `a` is the first one. -/
theorem comparisons_do_not_go_wrong_lone :
    (⟨ofFirst, .one .null, .one (.int 1)⟩ : Compared) ∈
        evaluator.compared (.ofFilter "B" filter) lone ∧
      ofFirst.truth (.one .null) (.one (.int 1)) = .unknown ∧
      ∃ xs, evaluator.Tests (.ofFilter "B" filter) lone .unknown xs ∧
        ∃ x ∈ xs, x.comparison.Open x.left x.right := by
  have declared : Schema.declare entities = .ok schema := by rfl
  have compiled : schema.compileFilter false "a:1" "B" = .ok filter := by cbv
  have asks : (Selection.ofFilter "B" filter).Asks "B" filter := ⟨rfl, rfl, rfl, rfl, rfl⟩
  have hev : Evaluator.of pair schema (.ofFilter "B" filter) = .ok evaluator := by rfl
  have stored : lone ∈ pair.rows "B" := List.mem_singleton.mpr rfl
  have reached : (⟨ofFirst, .one .null, .one (.int 1)⟩ : Compared) ∈
      evaluator.compared (.ofFilter "B" filter) lone := List.mem_singleton.mpr rfl
  have truth : Evaluator.rowTruth lone [none] (.leaf ofFirst) = .unknown := by rfl
  have tests : evaluator.Tests (.ofFilter "B" filter) lone .unknown
      (Evaluator.rowCompared lone [none] (.leaf ofFirst)) :=
    truth ▸ .row rfl rfl (List.mem_singleton.mpr rfl)
  obtain ⟨each, whole⟩ := comparisons_do_not_go_wrong declared compiled asks typed_pair hev stored
  obtain ⟨_, unknown⟩ := each _ reached
  refine ⟨reached, unknown.mpr ⟨.inl rfl, ?_, ?_, ?_⟩, _, tests, whole _ _ tests rfl⟩
  · rintro ⟨⟩
  · rintro ⟨_, ⟨⟩⟩
  · rintro ⟨⟨⟩, _⟩

end EntityQuery
