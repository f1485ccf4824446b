import EntityQuery.Dataset.Evaluation
import EntityQuery.StableSort

/-! # A dataset as a store

Records are given in the order asked for, nulls last in either direction, and otherwise in the order
of their identifiers. -/
namespace EntityQuery

/-- The order of two values in a direction, nulls last. -/
def Direction.compareValues (d : Direction) (x y : Value) : Ordering :=
  match x.isNull, y.isNull with
  | true, true => .eq
  | true, false => .gt
  | false, true => .lt
  | false, false =>
    let o := (x.compare y).getD .eq
    match d with
    | .ascending => o
    | .descending => o.swap

/-- The order of two records. -/
def compareRecords (a b : Record) : List OrderKey → Ordering
  | [] => (a.id.compare b.id).getD .eq
  | key :: rest =>
    (key.direction.compareValues (a.field key.attr) (b.field key.attr)).then
      (compareRecords a b rest)

/-- The items from an offset on, at most `limit` of them. -/
def pageOf {α : Type} (items : List α) (offset : Nat) : Option Nat → List α
  | some limit => (items.drop offset).take limit
  | none => items.drop offset

namespace Dataset

/-- The records that a selection keeps, in the order of their table. -/
def matching (d : Dataset) (s : Schema) (q : Selection) : Except Error (List Record) := do
  let _ ← s.entity q.entity
  let ev ← Evaluator.of d s q
  return (d.rows q.entity).filter (ev.keeps q)

/-- The records of a selection. -/
def select (d : Dataset) (s : Schema) (q : Selection) : Except Error (List Record) := do
  let kept ← d.matching s q
  let sorted := stableSort (fun a b => compareRecords a b q.order = .lt) kept
  return pageOf sorted q.offset q.limit

/-- The number of records that a selection keeps. -/
def count (d : Dataset) (s : Schema) (q : Selection) : Except Error Int := do
  return (← d.matching s q).length

/-- The order of two related records; the same record comes in the order of its owners. -/
def compareRelated (order : List OrderKey) (a b : Related) : Ordering :=
  (compareRecords a.record b.record order).then (compare a.ownerKey.key b.ownerKey.key)

/-- The related records that are asked for. -/
def fetchRelated (d : Dataset) (s : Schema) (q : RelatedQuery) : Except Error (List Related) := do
  let _ ← s.entity q.target
  let related := d.relatedTo q.target (q.keys.map Value.key) q.link
  let sorted := stableSort (fun a b => compareRelated q.order a b = .lt) related
  return pageOf sorted q.offset q.limit

/-- Asks a dataset that stays as it is. -/
def asking {α : Type} (question : Dataset → Except Error α) : Trip Dataset α :=
  fun d => (question d, d)

/-- A dataset as a store. -/
def store : Store Dataset where
  select s q := asking (·.select s q)
  count s q := asking (·.count s q)
  fetchRelated s q := asking (·.fetchRelated s q)
  isLoaded := Record.isLoaded

end Dataset

end EntityQuery
