import EntityQuery.Filter.Compilation
import EntityQuery.Sort

/-! # Selections

A selection says which records of an entity are asked for, in which order, and which part of them.
`Page` is that part with its place among all of them. -/
namespace EntityQuery

/-- Which records of an entity are asked for. -/
structure Selection where
  entity : String
  joins : Joins
  predicate : Option Predicate
  /-- Whether the predicate speaks of groups of rows. -/
  aggregate : Bool
  /-- The attributes by which rows are grouped besides the root. -/
  groupBy : List AttrRef
  order : List OrderKey
  limit : Option Nat
  offset : Nat

namespace Selection

/-- All records of an entity that a filter keeps. -/
def ofFilter (entity : String) (f : CompiledFilter) : Selection :=
  ⟨entity, f.joins, f.predicate, f.aggregate, f.groupBy, [], none, 0⟩

/-- The selection with a sort order. -/
def withOrder (q : Selection) (order : List OrderKey) : Selection := { q with order := order }

/-- The part of a selection that starts at an offset and has at most `limit` records. -/
def paged (q : Selection) (limit offset : Nat) : Selection :=
  { q with limit := some limit, offset := offset }

/-- The selection of which all records are counted: without order and whole. -/
def forCount (q : Selection) : Selection := { q with order := [], limit := none, offset := 0 }

/-- Whether joins can give a record more than one row. -/
def needsSubquery (q : Selection) : Bool := q.aggregate || !q.joins.isEmpty

/-- The JSON form of a selection. -/
def json (q : Selection) : Json :=
  .object [("entity", .text q.entity), ("joins", .list (q.joins.map JoinNode.json)),
    ("predicate", .ofOption (Predicate.json Value.json) q.predicate),
    ("aggregate", .bool q.aggregate), ("group_by", .list (q.groupBy.map AttrRef.json)),
    ("order", .list (q.order.map OrderKey.json)), ("limit", .ofOption Json.nat q.limit),
    ("offset", .nat q.offset)]

end Selection

/-- A part of the records asked for. -/
structure Page (α : Type) where
  items : List α
  page : Nat
  size : Nat
  /-- How many records there are in all, where they have been counted. -/
  total : Option Int

namespace Page

variable {α β : Type}

/-- How many pages there are in all. -/
def totalPages (p : Page α) : Option Nat :=
  p.total.map fun t => if p.size = 0 then 0 else (t.toNat + p.size - 1) / p.size

/-- The page with each of its items changed. -/
def mapItems {m : Type → Type} [Monad m] (f : α → m β) (p : Page α) : m (Page β) :=
  return { p with items := ← p.items.mapM f }

/-- The JSON form of a page. -/
def json (item : α → Json) (p : Page α) : Json :=
  .object [("items", .list (p.items.map item)), ("page", .nat p.page), ("size", .nat p.size),
    ("total", .ofOption Json.int p.total), ("total_pages", .ofOption Json.nat p.totalPages)]

end Page

end EntityQuery
