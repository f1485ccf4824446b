import EntityQuery.Proofs.Dataset.Index
import Mathlib.Data.List.Induction

/-!
# What a dataset has been filled with

The table of an entity is built from the records of that entity alone, one after the other
(`table_filledBy`). **Its index stays exact throughout** (`index_follows_calls`): a key has one row,
at the position where it was put in first, and the record there is the one put in last.

Putting in a record moves no key (`Exact.keys_prefix_insert`) and changes what is found under its
own key only (`Exact.find?_insert`); by induction on the records that have been put in, what is
found under a key is the last of these (`find?_insertAll`). The calls that fill a dataset are
`Change`, and one that fails leaves it as it was.
-/

namespace EntityQuery

namespace Table

variable {t : Table} {r : Record} {i : Nat}

/-- Finding a record by its key is the same as going through the rows. -/
theorem Exact.find?_eq (exact : t.Exact) (key : String) :
    t.find? key = t.rows.find? (·.key = key) := by
  rw [← List.head?_filter, exact.filter_rows, Option.head?_toList]

theorem Exact.index_eq_some_iff (exact : t.Exact) {key : String} :
    t.index.at? key = some i ↔ ∃ r, t.rows[i]? = some r ∧ r.key = key := by
  rw [exact, keys, List.getElem?_map, Option.map_eq_some_iff]

theorem insert_of_at? (found : t.index.at? r.key = some i) :
    t.insert r = { t with rows := t.rows.set i r } := by
  unfold insert
  rw [found]

theorem insert_of_not_at? (fresh : t.index.at? r.key = none) :
    t.insert r = ⟨t.rows ++ [r], t.index.put r.key t.rows.length⟩ := by
  unfold insert
  rw [fresh]

theorem mem_rows_insert {o : Record} (h : o ∈ (t.insert r).rows) : o = r ∨ o ∈ t.rows := by
  cases found : t.index.at? r.key with
  | some i =>
    rw [insert_of_at? found] at h
    exact (List.mem_or_eq_of_mem_set h).symm
  | none =>
    rw [insert_of_not_at? found] at h
    exact (List.mem_append.mp h).symm.imp_left List.mem_singleton.mp

theorem keys_concat (rows : List Record) (r : Record) (index : Directory Nat) :
    keys ⟨rows ++ [r], index⟩ = rows.map Record.key ++ [r.key] := List.map_append ..

/-- Putting in a record moves no key. -/
theorem Exact.keys_prefix_insert (exact : t.Exact) (r : Record) : t.keys <+: (t.insert r).keys := by
  cases found : t.index.at? r.key with
  | some i =>
    rw [insert_of_at? found]
    exact ⟨[], (List.append_nil _).trans (exact.keys_set found).symm⟩
  | none =>
    rw [insert_of_not_at? found]
    exact ⟨[r.key], (keys_concat ..).symm⟩

/-- The record put in is found under its key, and the others as before. -/
theorem Exact.find?_insert (exact : t.Exact) (r : Record) (key : String) :
    (t.insert r).find? key = if r.key = key then some r else t.find? key := by
  have at? {j : Nat} (h : t.index.at? key = some j) :
      j < t.rows.length ∧ t.keys[j]? = some key := by
    have there := (exact key j).mp h
    have length : t.keys.length = t.rows.length := List.length_map ..
    exact ⟨length ▸ (List.getElem?_eq_some_iff.mp there).1, there⟩
  unfold find?
  by_cases same : r.key = key
  · rw [if_pos same]
    cases found : t.index.at? r.key with
    | some i =>
      rw [insert_of_at? found]
      rw [same] at found
      dsimp only
      rw [found, Option.bind_some]
      exact List.getElem?_set_self (at? found).1
    | none =>
      rw [insert_of_not_at? found]
      dsimp only
      rw [same, Directory.at?_put_self, Option.bind_some]
      exact List.getElem?_concat_length
  · rw [if_neg same]
    cases found : t.index.at? r.key with
    | some i =>
      rw [insert_of_at? found]
      refine Option.bind_congr fun j hj => ?_
      have apart : i ≠ j := by
        rintro rfl
        exact same (Option.some.inj (((exact _ _).mp found).symm.trans (at? hj).2))
      exact List.getElem?_set_ne apart
    | none =>
      rw [insert_of_not_at? found]
      dsimp only
      rw [Directory.at?_put_of_ne (Ne.symm same)]
      refine Option.bind_congr fun j hj => ?_
      exact List.getElem?_append_left (at? hj).1

/-! ## Records in turn -/

/-- The table with these records put in, one after the other. -/
def insertAll (t : Table) (rs : List Record) : Table := rs.foldl insert t

@[simp] theorem insertAll_nil (t : Table) : t.insertAll [] = t := rfl

theorem insertAll_concat (t : Table) (rs : List Record) (r : Record) :
    t.insertAll (rs ++ [r]) = (t.insertAll rs).insert r := List.foldl_concat ..

theorem insertAll_append (t : Table) (rs rs' : List Record) :
    t.insertAll (rs ++ rs') = (t.insertAll rs).insertAll rs' := List.foldl_append ..

theorem Exact.insertAll (exact : t.Exact) (rs : List Record) : (t.insertAll rs).Exact := by
  induction rs using List.reverseRecOn with
  | nil => exact exact
  | append_singleton rs r ih =>
    rw [insertAll_concat]
    exact ih.insert r

theorem Exact.keys_prefix_insertAll (exact : t.Exact) (rs : List Record) :
    t.keys <+: (t.insertAll rs).keys := by
  induction rs using List.reverseRecOn with
  | nil => exact List.prefix_refl _
  | append_singleton rs r ih =>
    rw [insertAll_concat]
    exact ih.trans ((exact.insertAll rs).keys_prefix_insert r)

theorem mem_rows_insertAll {rs : List Record} {o : Record} (h : o ∈ (t.insertAll rs).rows) :
    o ∈ rs ∨ o ∈ t.rows := by
  induction rs using List.reverseRecOn with
  | nil => exact .inr h
  | append_singleton rs r ih =>
    rw [insertAll_concat] at h
    rcases mem_rows_insert h with rfl | h
    · exact .inl (List.mem_concat_self ..)
    · exact (ih h).imp_left (List.mem_append_left _)

/-- The record found under a key is the last one that has been put in under it. -/
theorem find?_insertAll (rs : List Record) (key : String) :
    (empty.insertAll rs).find? key = rs.reverse.find? (·.key = key) := by
  induction rs using List.reverseRecOn with
  | nil => rfl
  | append_singleton rs r ih =>
    rw [insertAll_concat, (exact_empty.insertAll rs).find?_insert, ih, List.reverse_append,
      List.reverse_singleton, List.singleton_append, List.find?_cons]
    by_cases same : r.key = key
    · simp [same]
    · simp [same]

end Table

namespace Dataset

/-! ## Calls in turn -/

/-- A call that fills a dataset. -/
inductive Change where
  | insert (r : Record)
  | link (s : Schema) (owner attr : String) (ownerId targetId : Value)
  | putEntry (s : Schema) (entity attr : String) (owner key value : Value)
  | pushElement (s : Schema) (entity attr : String) (owner value : Value)

namespace Change

/-- The dataset after the call, if the call succeeds. -/
def applyTo (d : Dataset) : Change → Except Error Dataset
  | insert r => .ok (d.insert r)
  | link s owner attr ownerId targetId => d.link s owner attr ownerId targetId
  | putEntry s entity attr owner key value => d.putEntry s entity attr owner key value
  | pushElement s entity attr owner value => d.pushElement s entity attr owner value

/-- The dataset after the call, which is as it was if the call fails. -/
def applied (d : Dataset) (c : Change) : Dataset := (c.applyTo d).toOption.getD d

/-- The record that the call puts into the table of the entity. -/
def record? (entity : String) : Change → Option Record
  | insert r => if r.entity = entity then some r.bare else none
  | _ => none

theorem table_applied (d : Dataset) (c : Change) (entity : String) :
    (c.applied d).table entity = (d.table entity).insertAll (c.record? entity).toList := by
  have kept (done : Except Error Dataset) (tables : ∀ d', done = .ok d' → d'.tables = d.tables) :
      (done.toOption.getD d).table entity = d.table entity := by
    cases done with
    | error e => rfl
    | ok d' =>
      exact congrArg (fun t : Directory Table => (t.at? entity).getD .empty) (tables d' rfl)
  cases c with
  | insert r =>
    show (d.insert r).table entity = _
    rw [table_insert]
    by_cases same : entity = r.entity
    · simp [record?, same, Table.insertAll]
    · simp [record?, same, Ne.symm same]
  | link s owner attr ownerId targetId => exact kept _ fun d' => tables_of_link
  | putEntry s entity attr owner key value => exact kept _ fun d' => tables_of_putEntry
  | pushElement s entity attr owner value => exact kept _ fun d' => tables_of_pushElement

end Change

theorem Filled.applied {d : Dataset} (filled : d.Filled) (c : Change) : (c.applied d).Filled := by
  unfold Change.applied
  cases done : c.applyTo d with
  | error e => exact filled
  | ok d' =>
    cases c with
    | insert r =>
      cases done
      exact .insert filled r
    | link => exact .link filled done
    | putEntry => exact .putEntry filled done
    | pushElement => exact .pushElement filled done

/-- The dataset after these calls. -/
def filledBy (calls : List Change) : Dataset := calls.foldl Change.applied .empty

/-- The records that calls put into the table of an entity, in turn. -/
def recordsIn (entity : String) (calls : List Change) : List Record :=
  calls.filterMap (Change.record? entity)

variable {calls more : List Change} {entity : String}

theorem recordsIn_concat (entity : String) (calls : List Change) (c : Change) :
    recordsIn entity (calls ++ [c]) = recordsIn entity calls ++ (c.record? entity).toList := by
  unfold recordsIn
  rw [List.filterMap_append]
  cases h : c.record? entity <;> simp [h]

/-- Only the records of an entity make its table. -/
theorem table_foldl_applied (d : Dataset) (calls : List Change) (entity : String) :
    (calls.foldl Change.applied d).table entity =
      (d.table entity).insertAll (recordsIn entity calls) := by
  induction calls using List.reverseRecOn with
  | nil => rfl
  | append_singleton calls c ih =>
    rw [List.foldl_concat, Change.table_applied, ih, recordsIn_concat, Table.insertAll_append]

theorem table_filledBy (calls : List Change) (entity : String) :
    (filledBy calls).table entity = Table.empty.insertAll (recordsIn entity calls) :=
  table_foldl_applied .empty calls entity

theorem filled_filledBy (calls : List Change) : (filledBy calls).Filled := by
  induction calls using List.reverseRecOn with
  | nil => exact .empty
  | append_singleton calls c ih =>
    unfold filledBy
    rw [List.foldl_concat]
    exact ih.applied c

theorem keys_prefix_filledBy (calls more : List Change) (entity : String) :
    ((filledBy calls).table entity).keys <+: ((filledBy (calls ++ more)).table entity).keys := by
  unfold filledBy
  rw [List.foldl_append, table_foldl_applied _ more]
  exact ((filled_filledBy calls).exact entity).keys_prefix_insertAll _

theorem relations_of_mem_recordsIn {r : Record} (h : r ∈ recordsIn entity calls) :
    r.relations = [] := by
  obtain ⟨c, -, put⟩ := List.mem_filterMap.mp h
  cases c with
  | insert r =>
    obtain ⟨-, bare⟩ := Option.ite_none_right_eq_some.mp put
    cases bare
    rfl
  | link | putEntry | pushElement => cases put

/-- **The index of a table follows the calls that fill it.** Whatever calls have filled a dataset,
the index of each table gives the position of every key of a row and of no other. The record of an
identifier is the row that going through the table finds, and the one that has been put in last
under the key. A record that replaces another takes its position, no later call moves a key, and
nothing that has been loaded is kept. -/
theorem index_follows_calls (calls : List Change) (entity : String) :
    ((filledBy calls).table entity).keys.Nodup ∧
    (∀ key i, ((filledBy calls).table entity).index.at? key = some i ↔
      ∃ r, ((filledBy calls).rows entity)[i]? = some r ∧ r.key = key) ∧
    (∀ id : Value,
      (filledBy calls).find? entity id =
        ((filledBy calls).rows entity).find? (·.key = id.key) ∧
      (filledBy calls).find? entity id =
        (recordsIn entity calls).reverse.find? (·.key = id.key)) ∧
    (∀ (r : Record) (i : Nat), r.entity = entity →
      ((filledBy calls).table entity).keys[i]? = some r.key →
      (filledBy (calls ++ [.insert r])).rows entity =
        ((filledBy calls).rows entity).set i r.bare) ∧
    (∀ more, ((filledBy calls).table entity).keys <+:
      ((filledBy (calls ++ more)).table entity).keys) ∧
    ∀ r ∈ (filledBy calls).rows entity, r.relations = [] := by
  have exact := (filled_filledBy calls).exact entity
  refine ⟨exact.nodup_keys, fun key i => exact.index_eq_some_iff, fun id => ⟨exact.find?_eq _, ?_⟩,
    ?_, fun more => keys_prefix_filledBy calls more entity, ?_⟩
  · unfold find?
    rw [table_filledBy]
    exact Table.find?_insertAll _ _
  · intro r i same there
    have found : ((filledBy calls).table entity).index.at? r.bare.key = some i :=
      (exact _ _).mpr there
    have put : Change.record? entity (.insert r) = some r.bare := if_pos same
    unfold rows
    rw [table_filledBy (calls ++ _), recordsIn_concat, put, Option.toList_some,
      Table.insertAll_concat, ← table_filledBy, Table.insert_of_at? found]
  · intro r hr
    unfold rows at hr
    rw [table_filledBy] at hr
    rcases Table.mem_rows_insertAll hr with put | before
    · exact relations_of_mem_recordsIn put
    · cases before

end Dataset

end EntityQuery
