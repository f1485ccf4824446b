import EntityQuery.Json.Basic
import EntityQuery.Schema.Basic

/-! # Paths

A path names an attribute by the segments that lead to it from an entity. Each association, map or
collection on the way is a step; the steps of all paths of a request are kept as *joins*, one for
each different beginning of a path, so that paths which begin alike go through the same rows.
`Schema.route` follows a path without regard to joins; `resolve` enters its steps among those
already there, also when the path turns out to lead nowhere. -/
namespace EntityQuery

/-- Where an attribute is read: in the root row or in the row of a join. -/
inductive Source where
  | root
  | join (id : Nat)
deriving DecidableEq, Repr

/-- What is read of a row. -/
inductive Column where
  | attribute (name column : String)
  | mapKey
  | mapValue
  | element
deriving DecidableEq, Repr

/-- An attribute of the root row or of the row of a join. -/
structure AttrRef where
  source : Source
  column : Column
deriving DecidableEq, Repr

/-- What a join leads to. -/
inductive JoinTarget where
  | entity (name : String)
  | map
  | collection
deriving DecidableEq, Repr

/-- A step from the rows of `parent` along the attribute `attr` of the entity `owner`. -/
structure JoinNode where
  id : Nat
  parent : Source
  owner : String
  attr : String
  /-- The path that leads here. -/
  path : String
  target : JoinTarget
deriving DecidableEq, Repr

/-- The joins of a request, each standing at the position that is its number. -/
abbrev Joins := List JoinNode

/-- What a path leads to. -/
structure ResolvedPath where
  attr : AttrRef
  type : ScalarType
  /-- Whether the attribute is the identifier of its entity. -/
  identifier : Bool
deriving DecidableEq

/-- An association, map or collection on the way along a path. -/
structure Step where
  path : String
  owner : String
  attr : String
  target : JoinTarget
deriving DecidableEq

/-- What a path reads in the row to which its steps lead. -/
structure Destination where
  column : Column
  type : ScalarType
  identifier : Bool
deriving DecidableEq

namespace Path

/-- The segments of a path. -/
def segments (path : String) : List String :=
  (path.toList.splitOn '.').map String.ofList

/-- The path that goes one segment further. -/
def extend (path segment : String) : String :=
  if path.isEmpty then segment else path ++ "." ++ segment

end Path

namespace Schema

/-- Follows the remaining segments of `path` from an entity that `base` has led to. A path that ends
at an association stands for the identifier of the target. -/
def route (s : Schema) (path : String) (e : Entity) (base : String) :
    List String → List Step × Except Error Destination
  | [] => ([], .error (.invalidPath (.malformed path)))
  | segment :: rest =>
    let here := Path.extend base segment
    match e.attribute? segment with
    | none => ([], .error (e.noAttribute segment))
    | some a =>
      match a.kind with
      | .scalar type =>
        if rest.isEmpty then ([], .ok ⟨.attribute a.name a.column, type, segment = e.id⟩)
        else ([], .error (.invalidPath (.notAssociation path segment)))
      | .association r =>
        match s.entity r.target with
        | .error fault => ([], .error fault)
        | .ok target =>
          let step : Step := ⟨here, e.name, segment, .entity target.name⟩
          match rest with
          | [] =>
            let id := target.idAttribute
            ([step], .ok ⟨.attribute id.name id.column, target.idType, true⟩)
          | next :: rest =>
            let (steps, destination) := s.route path target here (next :: rest)
            (step :: steps, destination)
      | .map t =>
        let step : Step := ⟨here, e.name, segment, .map⟩
        match rest with
        | ["key"] => ([step], .ok ⟨.mapKey, t.keyType, false⟩)
        | ["value"] => ([step], .ok ⟨.mapValue, t.valueType, false⟩)
        | _ => ([step], .error (.invalidPath (.mapNeedsKeyOrValue path segment)))
      | .collection t =>
        if rest.isEmpty then
          ([⟨here, e.name, segment, .collection⟩], .ok ⟨.element, t.elementType, false⟩)
        else ([], .error (.invalidPath (.collectionHasNoAttributes path segment)))

end Schema

namespace Joins

/-- Enters a step from the rows of `source`, unless its path has been entered before, and gives the
rows to which it leads. -/
def enter (source : Source) (joins : Joins) (step : Step) : Source × Joins :=
  match joins.find? (·.path = step.path) with
  | some join => (.join join.id, joins)
  | none =>
    let id := joins.length
    (.join id, joins ++ [⟨id, source, step.owner, step.attr, step.path, step.target⟩])

/-- Enters steps one after the other. -/
def enterAll (source : Source) (joins : Joins) (steps : List Step) : Source × Joins :=
  steps.foldl (fun (p : Source × Joins) step => enter p.1 p.2 step) (source, joins)

end Joins

/-- A computation that enters joins and may fail; the joins it entered stay. -/
abbrev Resolving (α : Type) := ExceptT Error (StateM Joins) α

namespace Schema

/-- Resolves a path from the entity `root`. -/
def resolve (s : Schema) (root path : String) : Resolving ResolvedPath := fun joins =>
  let segments := Path.segments path
  if segments.any String.isEmpty then (.error (.invalidPath (.malformed path)), joins)
  else
    match s.entity root with
    | .error fault => (.error fault, joins)
    | .ok e =>
      let (steps, destination) := s.route path e "" segments
      let (source, joins) := Joins.enterAll .root joins steps
      (destination.map fun d => ⟨⟨source, d.column⟩, d.type, d.identifier⟩, joins)

end Schema

/-! ## JSON forms -/

/-- The JSON form of a source. -/
def Source.json : Source → Json
  | root => .text "root"
  | join id => .object [("join", .nat id)]

/-- The JSON form of a column. -/
def Column.json : Column → Json
  | .attribute name column =>
    .object [("attribute", .object [("name", .text name), ("column", .text column)])]
  | mapKey => .text "map_key"
  | mapValue => .text "map_value"
  | element => .text "element"

/-- The JSON form of an attribute that has been resolved. -/
def AttrRef.json (a : AttrRef) : Json :=
  .object [("source", a.source.json), ("column", a.column.json)]

/-- The JSON form of what a join leads to. -/
def JoinTarget.json : JoinTarget → Json
  | entity name => .object [("entity", .text name)]
  | map => .text "map"
  | collection => .text "collection"

/-- The JSON form of a join. -/
def JoinNode.json (j : JoinNode) : Json :=
  .object [("id", .nat j.id), ("parent", j.parent.json), ("owner", .text j.owner),
    ("attribute", .text j.attr), ("path", .text j.path), ("target", j.target.json)]

end EntityQuery
