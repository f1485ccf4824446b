import EntityQuery.Record
import EntityQuery.Schema.Link
import EntityQuery.Selection

/-! # Stores

A store answers selections, counts them, and loads related records: the targets of an association of
a whole batch of owners, by the keys through which the link matches them. Each request is one round
trip; it may fail, and it may change the state of the store either way. -/
namespace EntityQuery

/-- Which targets of an association are asked for. -/
structure RelatedQuery where
  owner : String
  attr : String
  target : String
  link : Link
  /-- Identifiers of the owners, or of the targets where the owners keep those. -/
  keys : List Value
  order : List OrderKey
  limit : Option Nat
  offset : Nat

/-- The JSON form of a related query. -/
def RelatedQuery.json (q : RelatedQuery) : Json :=
  .object [("owner", .text q.owner), ("attribute", .text q.attr), ("target", .text q.target),
    ("link", q.link.json), ("keys", .list (q.keys.map Value.json)),
    ("order", .list (q.order.map OrderKey.json)), ("limit", .ofOption Json.nat q.limit),
    ("offset", .nat q.offset)]

/-- A computation with a store in state `σ`; what a failing one has changed stays changed. -/
abbrev Trip (σ α : Type) := ExceptT Error (StateM σ) α

/-- A record with the key of the owner to which it belongs. -/
structure Related where
  /-- The identifier of the owner, or of the record where the owner keeps that. -/
  ownerKey : Value
  record : Record

/-- Where records are kept. -/
structure Store (σ : Type) where
  /-- The records of a selection, in its order. -/
  select : Schema → Selection → Trip σ (List Record)
  /-- The number of records that the predicate of a selection keeps. -/
  count : Schema → Selection → Trip σ Int
  /-- The targets of an association of a batch of owners. -/
  fetchRelated : Schema → RelatedQuery → Trip σ (List Related)
  /-- Whether an association of a record need not be loaded. -/
  isLoaded : Record → String → Bool

end EntityQuery
