import EntityQuery.Path
import EntityQuery.Schema.Link
import EntityQuery.Settings
import EntityQuery.Sort

/-! # Fetch plans

A fetch plan says which associations are loaded onto the records of a page, and onto the records
loaded there. A *join* fetch loads all targets of all owners at once; a *query* fetch loads a part
of the targets of each owner, in an order of its own. Fetches are entered under the path of the
association whose records are their owners, the empty path standing for the page itself. -/
namespace EntityQuery

/-- How the targets of an association are loaded. -/
inductive FetchKind where
  /-- All of them; `collection` tells whether there may be several. -/
  | join (collection : Bool)
  /-- Those from `offset` on, at most `limit` for each owner. -/
  | query (offset : Nat) (limit : Option Nat) (sorting : List SortKey)
deriving DecidableEq

/-- An association to be loaded. -/
structure Fetch where
  name : String
  kind : FetchKind
deriving DecidableEq

namespace Fetch

/-- All targets of an association to one. -/
def join (name : String) : Fetch := ⟨name, .join false⟩

/-- All targets of an association to many. -/
def joinCollection (name : String) : Fetch := ⟨name, .join true⟩

/-- All targets of each owner, in the order of their identifiers. -/
def query (name : String) : Fetch := ⟨name, .query 0 none []⟩

/-- Whether the fetch loads a part of the targets of each owner. -/
def isQuery (f : Fetch) : Bool :=
  match f.kind with
  | .join _ => false
  | .query _ _ _ => true

/-- The fetch of a part of the targets. -/
def withBounds (f : Fetch) (offset : Nat) (limit : Option Nat) : Except Error Fetch :=
  match f.kind with
  | .join _ => .error (.joinCannotBound f.name)
  | .query _ _ sorting => .ok ⟨f.name, .query offset limit sorting⟩

/-- The fetch in another order. -/
def withSort (f : Fetch) (sorting : List SortKey) : Except Error Fetch :=
  match f.kind with
  | .join _ => .error (.joinCannotBound f.name)
  | .query offset limit _ => .ok ⟨f.name, .query offset limit sorting⟩

/-- The JSON form of a fetch. -/
def json (f : Fetch) : Json :=
  match f.kind with
  | .join collection =>
    .object [("name", .text f.name), ("kind", .text "join"), ("is_collection", .bool collection),
      ("offset", .nat 0), ("limit", .null), ("sorting", .list [])]
  | .query offset limit sorting =>
    .object [("name", .text f.name), ("kind", .text "query"), ("is_collection", .bool true),
      ("offset", .nat offset), ("limit", .ofOption Json.nat limit),
      ("sorting", .list (sorting.map SortKey.json))]

end Fetch

namespace Path

/-- The number of segments of a path. -/
def depth (path : String) : Nat := if path.isEmpty then 0 else (segments path).length

/-- The segments of a path, the empty path having none. -/
def steps (path : String) : List String := if path.isEmpty then [] else segments path

/-- Whether a path comes before another: it has fewer segments, or as many in fewer bytes, or as
many bytes in alphabetic order. -/
def before (a b : String) : Bool :=
  match compare (depth a) (depth b) with
  | .lt => true
  | .gt => false
  | .eq =>
    match compare a.utf8ByteSize b.utf8ByteSize with
    | .lt => true
    | .gt => false
    | .eq => a ≤ b

/-- The paths without repetitions, in order. -/
def ordered (paths : List String) : List String := paths.eraseDups.mergeSort before

end Path

/-- The fetches, each under the path of its owners, in the order in which they were entered. -/
structure FetchPlan where
  entries : List (String × Fetch)
deriving DecidableEq

namespace FetchPlan

/-- The plan that loads nothing. -/
def empty : FetchPlan := ⟨[]⟩

/-- Enters a fetch, unless its association is fetched there already. -/
def add (p : FetchPlan) (parent : String) (f : Fetch) : Except Error FetchPlan :=
  if p.entries.any fun e => e.1 = parent ∧ e.2.name = f.name then
    .error (.malformedFetchPlan 0 (.fetchedTwice (Path.extend parent f.name)))
  else .ok ⟨p.entries ++ [(parent, f)]⟩

/-- Whether nothing is fetched. -/
def isEmpty (p : FetchPlan) : Bool := p.entries.isEmpty

/-- The number of fetches. -/
def size (p : FetchPlan) : Nat := p.entries.length

/-- The fetches of one kind. -/
def ofKind (p : FetchPlan) (query : Bool) : List (String × Fetch) :=
  p.entries.filter (·.2.isQuery = query)

/-- The paths under which there are fetches of one kind, in order. -/
def pathsOfKind (p : FetchPlan) (query : Bool) : List String :=
  Path.ordered ((p.ofKind query).map (·.1))

/-- The paths under which there are join fetches. -/
def joinPaths (p : FetchPlan) : List String := p.pathsOfKind false

/-- The paths under which there are query fetches. -/
def queryPaths (p : FetchPlan) : List String := p.pathsOfKind true

/-- The paths under which there are fetches; a path comes after those that lead to it. -/
def paths (p : FetchPlan) : List String := Path.ordered (p.entries.map (·.1))

/-- The fetches of one kind under a path. -/
def fetchesAt (p : FetchPlan) (query : Bool) (path : String) : List Fetch :=
  ((p.ofKind query).filter (·.1 = path)).map (·.2)

/-- The join fetches under a path. -/
def joinsAt (p : FetchPlan) (path : String) : List Fetch := p.fetchesAt false path

/-- The query fetches under a path. -/
def queriesAt (p : FetchPlan) (path : String) : List Fetch := p.fetchesAt true path

/-- The JSON form of the fetches of one kind. -/
def jsonOfKind (p : FetchPlan) (query : Bool) : Json :=
  .object ((p.pathsOfKind query).map fun path =>
    (path, .list ((p.fetchesAt query path).map Fetch.json)))

/-- The JSON form of a plan. -/
def json (p : FetchPlan) : Json :=
  .object [("joins", p.jsonOfKind false), ("queries", p.jsonOfKind true)]

end FetchPlan

namespace Schema

/-- The entity to which associations lead. -/
def follow (s : Schema) (entity : String) : List String → Except Error String
  | [] => .ok entity
  | segment :: rest => do s.follow (← s.association entity segment).target rest

/-- The entity to which a path leads from `root`. -/
def entityAt (s : Schema) (root path : String) : Except Error String := do
  s.follow (← s.entity root).name (Path.steps path)

/-- Refuses a fetch from `owner` that the schema does not allow. -/
def validateFetch (s : Schema) (owner : String) (f : Fetch) : Except Error Unit := do
  let r ← s.association owner f.name
  let _ ← s.link owner f.name
  match f.kind with
  | .join _ => return ()
  | .query _ _ sorting =>
    if !r.kind.isToMany then throw (.invalidPath (.toOneNotBoundable owner f.name))
    let _ ← s.resolveOrder r.target sorting
    return ()

/-- Refuses the fetches under a path that go too deep or that the schema does not allow. -/
def validatePath (s : Schema) (c : Settings) (entity : String) (p : FetchPlan) (path : String) :
    Except Error Unit := do
  if Path.depth path + 1 > c.maxFetchDepth then
    throw (.tooCostly (.fetchDepth path c.maxFetchDepth))
  let owner ← s.entityAt entity path
  (p.joinsAt path ++ p.queriesAt path).forM (s.validateFetch owner)

/-- Refuses a plan for records of `entity` that exceeds the limits or that the schema does not
allow. -/
def validatePlan (s : Schema) (c : Settings) (entity : String) (p : FetchPlan) :
    Except Error Unit := do
  if p.size > c.maxFetches then throw (.tooCostly (.fetches p.size c.maxFetches))
  p.paths.forM (s.validatePath c entity p)

end Schema

end EntityQuery
