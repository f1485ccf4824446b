import EntityQuery.Proofs.Dataset.Expansion
import EntityQuery.Proofs.Dataset.Filling

/-!
# Datasets that hold the same

Two datasets can hold the same records, links and elements in different orders (`SameContents`), as
they do when they have been filled in different orders (`sameContents_of_perm`). A record is then
found in either by its identifier, and **whatever is read of one is read of the other, in another
order at most** (`relatedTo_perm`, `children_perm`): a record has the same bindings in either
(`expand_perm`).

Filling is read call by call: what each call puts into a table does not depend on the other calls
(`rows_filledBy`, `linkRows_applied`, `elementRows_applied`), as long as records have different
keys.
-/

namespace EntityQuery

namespace Dataset

/-- The datasets hold the same records, links and elements, in any order. -/
structure SameContents (d d' : Dataset) : Prop where
  rows (entity : String) : (d.rows entity).Perm (d'.rows entity)
  linkRows (table : String) : (d.linkRows table).Perm (d'.linkRows table)
  elementRows (table : String) : (d.elementRows table).Perm (d'.elementRows table)

namespace SameContents

variable {d d' : Dataset} (same : d.SameContents d') (filled : d.Filled) (filled' : d'.Filled)

include same filled filled'

theorem find?_eq (entity : String) (id : Value) : d.find? entity id = d'.find? entity id := by
  refine Option.ext fun r => ?_
  show (d.table entity).find? id.key = some r ↔ (d'.table entity).find? id.key = some r
  rw [(filled.exact entity).find?_eq_some_iff, (filled'.exact entity).find?_eq_some_iff]
  exact and_congr_left' (same.rows entity).mem_iff

theorem relatedTo_perm (target : String) (keys : List String) (l : Link) :
    (d.relatedTo target keys l).Perm (d'.relatedTo target keys l) := by
  cases l with
  | identity => exact ((same.rows target).filter _).map _
  | foreignKey attr column => exact (same.rows target).filterMap _
  | joinTable t =>
    have reads : d.linkedTarget? target t keys = d'.linkedTarget? target t keys := by
      funext row
      simp only [linkedTarget?, same.find?_eq filled filled']
    show ((d.linkRows t.table).filterMap _).Perm ((d'.linkRows t.table).filterMap _)
    rw [reads]
    exact (same.linkRows t.table).filterMap _

theorem targetsOf_perm (target attr : String) (o : Record) (l : Link) :
    (d.targetsOf target attr o l).Perm (d'.targetsOf target attr o l) := by
  cases l with
  | identity =>
    show (d.find? target (o.reference attr)).toList.Perm (d'.find? target _).toList
    rw [same.find?_eq filled filled']
  | foreignKey | joinTable => exact (same.relatedTo_perm filled filled' ..).map _

end SameContents

end Dataset

namespace Evaluator

open Dataset (SameContents)

variable {d d' : Dataset} {joins : Joins} {plans : List JoinPlan} {root : Record}
  (same : d.SameContents d') (filled : d.Filled) (filled' : d'.Filled)

include same filled filled'

theorem children_perm (parent : Record) (id : Nat) :
    (children ⟨d, joins, plans⟩ parent id).Perm (children ⟨d', joins, plans⟩ parent id) := by
  unfold children
  dsimp only
  split
  · exact (same.targetsOf_perm filled filled' ..).map _
  · exact ((same.elementRows _).filter _).map _
  · exact .refl _

theorem reach_perm (join : JoinNode) (b : Binding) :
    (reach ⟨d, joins, plans⟩ root join b).Perm (reach ⟨d', joins, plans⟩ root join b) := by
  unfold reach
  split
  · exact children_perm same filled filled' ..
  · exact .refl _

theorem extendAlong_perm (join : JoinNode) (b : Binding) :
    (extendAlong ⟨d, joins, plans⟩ root join b).Perm
      (extendAlong ⟨d', joins, plans⟩ root join b) := by
  have reached : (reach ⟨d, joins, plans⟩ root join b).Perm _ :=
    reach_perm same filled filled' join b
  rw [extendAlong_eq, extendAlong_eq]
  refine List.Perm.map _ ?_
  unfold options
  rw [reached.isEmpty_eq]
  split
  · exact .refl _
  · exact reached.map _

theorem expandFrom_perm (js : List JoinNode) (b : Binding) :
    (expandFrom ⟨d, joins, plans⟩ root js b).Perm (expandFrom ⟨d', joins, plans⟩ root js b) := by
  induction js generalizing b with
  | nil => exact .refl _
  | cons j js ih => exact (extendAlong_perm same filled filled' j b).flatMap fun b _ => ih b

/-- A record has the same bindings in either dataset. -/
theorem expand_perm : (expand ⟨d, joins, plans⟩ root).Perm (expand ⟨d', joins, plans⟩ root) := by
  rw [expand_eq, expand_eq]
  exact expandFrom_perm same filled filled' joins _

end Evaluator

/-! ## Filling in another order -/

/-- Records of different keys stand in the order in which they have been put in. -/
theorem Table.rows_insertAll_of_nodup {rs : List Record} (nodup : (rs.map Record.key).Nodup) :
    (empty.insertAll rs).rows = rs := by
  induction rs using List.reverseRecOn with
  | nil => rfl
  | append_singleton rs r ih =>
    rw [List.map_append, List.map_singleton, List.nodup_append_comm, List.singleton_append,
      List.nodup_cons] at nodup
    have rows := ih nodup.2
    have fresh : (empty.insertAll rs).index.at? r.key = none := by
      refine Option.eq_none_iff_forall_ne_some.mpr fun i found => nodup.1 ?_
      have there := (exact_empty.insertAll rs r.key i).mp found
      rw [keys, rows] at there
      exact List.mem_of_getElem? there
    rw [insertAll_concat, insert_of_not_at? fresh, rows]

namespace Dataset

variable {calls calls' : List Change}

namespace Change

/-- The row that the call puts into the table between entities. -/
def linkRow? (table : String) : Change → Option (Directory Value)
  | link s owner attr ownerId targetId =>
    match s.joinTable owner attr with
    | .ok t =>
      if t.table = table then
        some ((Directory.put [] t.ownerColumn ownerId).put t.targetColumn targetId)
      else none
    | .error _ => none
  | _ => none

/-- The row that the call puts into the map or collection. -/
def elementRow? (table : String) : Change → Option ElementRow
  | putEntry s entity attr owner key value =>
    match (s.attributeOf entity attr).map Attribute.kind with
    | .ok (.map t) => if t.table = table then some ⟨owner, key, value⟩ else none
    | _ => none
  | pushElement s entity attr owner value =>
    match (s.attributeOf entity attr).map Attribute.kind with
    | .ok (.collection t) => if t.table = table then some ⟨owner, .null, value⟩ else none
    | _ => none
  | _ => none

theorem getD_at?_update {α : Type} (dir : Directory (List α)) (name table : String) (a : α) :
    ((dir.update name [] (· ++ [a])).at? table).getD [] =
      (dir.at? table).getD [] ++ (if name = table then some a else none).toList := by
  unfold Directory.update
  by_cases same : name = table
  · rw [same, Directory.at?_put_self, if_pos rfl]
    rfl
  · rw [Directory.at?_put_of_ne (Ne.symm same), if_neg same]
    exact (List.append_nil _).symm

/-- A call that leaves something as it is when it succeeds always does. -/
theorem read_applied {α : Type} {d : Dataset} {c : Change} (read : Dataset → List α)
    (same : ∀ d', c.applyTo d = .ok d' → read d' = read d) :
    read (c.applied d) = read d ++ [] := by
  rw [List.append_nil]
  unfold applied
  cases done : c.applyTo d with
  | error e => rfl
  | ok d' => exact same d' done

theorem exists_addElement_of_putEntry {d d' : Dataset} {s : Schema} {entity attr : String}
    {owner key value : Value} (done : d.putEntry s entity attr owner key value = .ok d') :
    ∃ table row, d' = d.addElement table row := by
  obtain ⟨_, _, done⟩ := bind_eq_ok.mp done
  split at done <;> cases done
  exact ⟨_, _, rfl⟩

theorem exists_addElement_of_pushElement {d d' : Dataset} {s : Schema} {entity attr : String}
    {owner value : Value} (done : d.pushElement s entity attr owner value = .ok d') :
    ∃ table row, d' = d.addElement table row := by
  obtain ⟨_, _, done⟩ := bind_eq_ok.mp done
  split at done <;> cases done
  exact ⟨_, _, rfl⟩

theorem linkRows_applied (d : Dataset) (c : Change) (table : String) :
    (c.applied d).linkRows table = d.linkRows table ++ (c.linkRow? table).toList := by
  cases c with
  | insert r => exact (List.append_nil _).symm
  | link s owner attr ownerId targetId =>
    show ((d.link s owner attr ownerId targetId).toOption.getD d).linkRows table = _
    unfold Dataset.link linkRow?
    dsimp only
    cases s.joinTable owner attr with
    | error e => exact (List.append_nil _).symm
    | ok t => exact getD_at?_update ..
  | putEntry s entity attr owner key value =>
    refine read_applied (·.linkRows table) fun d' done => ?_
    obtain ⟨_, _, rfl⟩ := exists_addElement_of_putEntry done
    rfl
  | pushElement s entity attr owner value =>
    refine read_applied (·.linkRows table) fun d' done => ?_
    obtain ⟨_, _, rfl⟩ := exists_addElement_of_pushElement done
    rfl

theorem elementRows_applied (d : Dataset) (c : Change) (table : String) :
    (c.applied d).elementRows table = d.elementRows table ++ (c.elementRow? table).toList := by
  cases c with
  | insert r => exact (List.append_nil _).symm
  | link s owner attr ownerId targetId =>
    refine read_applied (·.elementRows table) fun d' done => ?_
    obtain ⟨t, -, done⟩ := bind_eq_ok.mp done
    cases done
    rfl
  | putEntry s entity attr owner key value =>
    show ((d.putEntry s entity attr owner key value).toOption.getD d).elementRows table = _
    unfold Dataset.putEntry elementRow?
    dsimp only
    cases s.attributeOf entity attr with
    | error e => exact (List.append_nil _).symm
    | ok a =>
      obtain ⟨_, _, _, kind⟩ := a
      cases kind with
      | map t => exact getD_at?_update ..
      | scalar | association | collection => exact (List.append_nil _).symm
  | pushElement s entity attr owner value =>
    show ((d.pushElement s entity attr owner value).toOption.getD d).elementRows table = _
    unfold Dataset.pushElement elementRow?
    dsimp only
    cases s.attributeOf entity attr with
    | error e => exact (List.append_nil _).symm
    | ok a =>
      obtain ⟨_, _, _, kind⟩ := a
      cases kind with
      | collection t => exact getD_at?_update ..
      | scalar | association | map => exact (List.append_nil _).symm

end Change

theorem rows_eq_filterMap {α : Type} (read : Dataset → List α) {row? : Change → Option α}
    (empty : read .empty = [])
    (step : ∀ d c, read (c.applied d) = read d ++ (row? c).toList) (calls : List Change) :
    read (filledBy calls) = calls.filterMap row? := by
  induction calls using List.reverseRecOn with
  | nil => exact empty
  | append_singleton calls c ih =>
    unfold filledBy at ih ⊢
    rw [List.foldl_concat, step, ih, List.filterMap_append]
    cases h : row? c <;> simp [h]

/-- Calls that put in records of different keys make them the rows of the table. -/
theorem rows_filledBy {entity : String}
    (distinct : ((recordsIn entity calls).map Record.key).Nodup) :
    (filledBy calls).rows entity = recordsIn entity calls := by
  unfold rows
  rw [table_filledBy, Table.rows_insertAll_of_nodup distinct]

/-- Calls that put in records of different keys fill a dataset with the same in whatever order. -/
theorem sameContents_of_perm (perm : calls.Perm calls')
    (distinct : ∀ entity, ((recordsIn entity calls).map Record.key).Nodup) :
    (filledBy calls).SameContents (filledBy calls') where
  rows entity := by
    have records : (recordsIn entity calls).Perm (recordsIn entity calls') := perm.filterMap _
    rw [rows_filledBy (distinct entity),
      rows_filledBy ((records.map _).nodup_iff.mp (distinct entity))]
    exact records
  linkRows table := by
    have rows := rows_eq_filterMap (·.linkRows table) rfl
      fun d c => Change.linkRows_applied d c table
    rw [rows calls, rows calls']
    exact perm.filterMap _
  elementRows table := by
    have rows := rows_eq_filterMap (·.elementRows table) rfl
      fun d c => Change.elementRows_applied d c table
    rw [rows calls, rows calls']
    exact perm.filterMap _

end Dataset

end EntityQuery
