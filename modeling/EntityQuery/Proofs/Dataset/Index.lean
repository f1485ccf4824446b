import EntityQuery.Dataset.Basic
import EntityQuery.Proofs.Outcome
import Mathlib.Data.List.Nodup

/-!
# The index of a table

**However a dataset has been filled, the index of each table gives the position of every key of a
row and of no other** (`Filled.exact`, `Exact`), so that no two rows share a key
(`Exact.nodup_keys`) and finding a record by its key is the same as going through the rows
(`Exact.filter_rows`). `Filled` has a constructor for each operation on datasets; of these only
putting in a record changes a table (`Exact.insert`).
-/

namespace EntityQuery

namespace Table

/-- The keys of the rows. -/
def keys (t : Table) : List String := t.rows.map Record.key

/-- The index gives the position of each key. -/
def Exact (t : Table) : Prop := ∀ key i, t.index.at? key = some i ↔ t.keys[i]? = some key

theorem exact_empty : empty.Exact := by
  intro key i
  simp [empty, keys]

theorem getElem?_concat_eq_some_iff {α : Type} {l : List α} {a b : α} {i : Nat} :
    (l ++ [a])[i]? = some b ↔ l[i]? = some b ∨ i = l.length ∧ a = b := by
  rcases Nat.lt_trichotomy i l.length with h | rfl | h
  · rw [List.getElem?_append_left h]
    simp [Nat.ne_of_lt h]
  · simp
  · rw [List.getElem?_eq_none (by simp; omega), List.getElem?_eq_none (by omega)]
    simp [Nat.ne_of_gt h]

variable {t : Table}

/-- A row that takes the place of one of the same key moves no key. -/
theorem Exact.keys_set (exact : t.Exact) {r : Record} {i : Nat}
    (found : t.index.at? r.key = some i) : (t.rows.set i r).map Record.key = t.keys := by
  obtain ⟨hlt, hkey⟩ := List.getElem?_eq_some_iff.mp ((exact r.key i).mp found)
  rw [List.map_set, ← hkey]
  exact List.set_getElem_self hlt

theorem Exact.insert (exact : t.Exact) (r : Record) : (t.insert r).Exact := by
  unfold Table.insert
  cases found : t.index.at? r.key with
  | some i =>
    intro key j
    show t.index.at? key = some j ↔ ((t.rows.set i r).map Record.key)[j]? = some key
    rw [exact.keys_set found]
    exact exact key j
  | none =>
    -- No row has the key yet, so that only the position at the end can be the new one.
    have fresh (j : Nat) : t.keys[j]? ≠ some r.key := by
      intro h
      rw [(exact r.key j).mpr h] at found
      cases found
    have length : t.keys.length = t.rows.length := List.length_map ..
    intro key j
    show (t.index.put r.key t.rows.length).at? key = some j ↔
      ((t.rows ++ [r]).map Record.key)[j]? = some key
    rw [List.map_append, List.map_singleton, getElem?_concat_eq_some_iff]
    show _ ↔ t.keys[j]? = some key ∨ j = t.keys.length ∧ r.key = key
    by_cases hk : key = r.key
    · subst hk
      rw [Directory.at?_put_self, length]
      simp [fresh, eq_comm]
    · rw [Directory.at?_put_of_ne hk, exact key j]
      simp [Ne.symm hk]

theorem Exact.nodup_keys (exact : t.Exact) : t.keys.Nodup := by
  rw [List.nodup_iff_getElem?_ne_getElem?]
  intro i j hij hj h
  have hsecond := List.getElem?_eq_getElem hj
  have hi := (exact _ i).mpr (h.trans hsecond)
  have hj := (exact _ j).mpr hsecond
  rw [hi] at hj
  cases hj
  omega

theorem Exact.find?_eq_some_iff (exact : t.Exact) {key : String} {r : Record} :
    t.find? key = some r ↔ r ∈ t.rows ∧ r.key = key := by
  unfold find?
  rw [Option.bind_eq_some_iff]
  constructor
  · rintro ⟨i, hi, hr⟩
    have hkey := (exact key i).mp hi
    rw [keys, List.getElem?_map, hr] at hkey
    cases hkey
    exact ⟨List.mem_of_getElem? hr, rfl⟩
  · rintro ⟨hr, rfl⟩
    obtain ⟨i, hi⟩ := List.mem_iff_getElem?.mp hr
    refine ⟨i, (exact r.key i).mpr ?_, hi⟩
    rw [keys, List.getElem?_map, hi]
    rfl

/-- Going through the rows for a key finds the record of the key, once. -/
theorem Exact.filter_rows (exact : t.Exact) (key : String) :
    t.rows.filter (·.key = key) = (t.find? key).toList := by
  cases found : t.find? key with
  | none =>
    refine List.filter_eq_nil_iff.mpr fun r hr => ?_
    intro hkey
    rw [exact.find?_eq_some_iff.mpr ⟨hr, of_decide_eq_true hkey⟩] at found
    cases found
  | some r =>
    obtain ⟨hr, rfl⟩ := exact.find?_eq_some_iff.mp found
    obtain ⟨before, after, rows⟩ := List.append_of_mem hr
    -- The rows before and after have other keys and are left out.
    have nodup := exact.nodup_keys
    rw [keys, rows, List.map_append, List.map_cons, List.nodup_middle, List.nodup_cons,
      List.mem_append] at nodup
    have other (rs : List Record) (h : r.key ∉ rs.map Record.key) :
        rs.filter (·.key = r.key) = [] := by
      refine List.filter_eq_nil_iff.mpr fun o ho => ?_
      intro hkey
      exact h (List.mem_map.mpr ⟨o, ho, of_decide_eq_true hkey⟩)
    rw [rows, List.filter_append, other before fun h => nodup.1 (.inl h), List.filter_cons,
      other after fun h => nodup.1 (.inr h)]
    simp

end Table

namespace Dataset

/-- The dataset has been filled by the operations on datasets, whatever schema they were given. -/
inductive Filled : Dataset → Prop
  | empty : Filled .empty
  | insert {d : Dataset} (filled : Filled d) (r : Record) : Filled (d.insert r)
  | link {d d' : Dataset} {s : Schema} {owner attr : String} {ownerId targetId : Value}
      (filled : Filled d) (done : d.link s owner attr ownerId targetId = .ok d') : Filled d'
  | putEntry {d d' : Dataset} {s : Schema} {entity attr : String} {owner key value : Value}
      (filled : Filled d) (done : d.putEntry s entity attr owner key value = .ok d') : Filled d'
  | pushElement {d d' : Dataset} {s : Schema} {entity attr : String} {owner value : Value}
      (filled : Filled d) (done : d.pushElement s entity attr owner value = .ok d') : Filled d'

variable {d d' : Dataset}

theorem table_insert (r : Record) (entity : String) :
    (d.insert r).table entity =
      if entity = r.entity then (d.table entity).insert r.bare else d.table entity := by
  unfold insert table Directory.update
  split
  · next h =>
    subst h
    rw [Directory.at?_put_self]
    rfl
  · next h => rw [Directory.at?_put_of_ne h]

theorem tables_of_link {s : Schema} {owner attr : String} {ownerId targetId : Value}
    (h : d.link s owner attr ownerId targetId = .ok d') : d'.tables = d.tables := by
  obtain ⟨t, _, h⟩ := bind_eq_ok.mp h
  cases h
  rfl

theorem tables_of_putEntry {s : Schema} {entity attr : String} {owner key value : Value}
    (h : d.putEntry s entity attr owner key value = .ok d') : d'.tables = d.tables := by
  obtain ⟨a, _, h⟩ := bind_eq_ok.mp h
  split at h <;> cases h
  rfl

theorem tables_of_pushElement {s : Schema} {entity attr : String} {owner value : Value}
    (h : d.pushElement s entity attr owner value = .ok d') : d'.tables = d.tables := by
  obtain ⟨a, _, h⟩ := bind_eq_ok.mp h
  split at h <;> cases h
  rfl

/-- However a dataset has been filled, its indices are exact. -/
theorem Filled.exact (filled : d.Filled) (entity : String) : (d.table entity).Exact := by
  induction filled with
  | empty => exact Table.exact_empty
  | insert _ r ih =>
    rw [table_insert]
    split
    · exact ih.insert r.bare
    · exact ih
  | link _ done ih => rwa [table, tables_of_link done]
  | putEntry _ done ih => rwa [table, tables_of_putEntry done]
  | pushElement _ done ih => rwa [table, tables_of_pushElement done]

end Dataset

end EntityQuery
