import EntityQuery.Fetch.Plan
import EntityQuery.Store.Basic

/-! # Loading

A fetch plan is carried out path by path. The owners at a path are the records reached from the
roots through what has been loaded; a join fetch takes one round trip for all of them, a query fetch
one for each. What has been loaded before is left as it is. A round trip that fails ends the
loading; what had been loaded until then stays. -/
namespace EntityQuery

namespace Loaded

variable {α : Type} {m : Type → Type} [Monad m]

/-- Changes the records one after the other. -/
def traverse (f : α → m α) : Loaded α → m (Loaded α)
  | one none => pure (one none)
  | one (some r) => return one (some (← f r))
  | many rs => return many (← rs.mapM f)

end Loaded

namespace Record

variable {m : Type → Type} [Monad m]

/-- The records reached through loaded associations. -/
def ownersAt : List String → List Record → List Record
  | [], records => records
  | segment :: rest, records => ownersAt rest (records.flatMap (·.related segment))

/-- Changes the records reached through loaded associations, one after the other. -/
def traverseAt (f : Record → m Record) : List String → Record → m Record
  | [], r => f r
  | segment :: rest, r =>
    match r.relation? segment with
    | none => pure r
    | some l => return r.setRelation segment (← l.traverse (traverseAt f rest))

/-- What is to be loaded onto each of a sequence of owners, where anything is. -/
abbrev Assignments := List (Option (Loaded Record))

/-- Gives the next assignment to a record; without one the record stays as it is. -/
def assignNext (attr : String) (r : Record) : StateM Assignments Record := do
  match ← get with
  | [] => return r
  | a :: rest =>
    set rest
    match a with
    | none => return r
    | some l => return r.setRelation attr l

/-- Loads an association onto the owners at a path, in their order. -/
def attach (path : List String) (attr : String) (assignments : Assignments)
    (roots : List Record) : List Record :=
  ((roots.mapM (traverseAt (assignNext attr) path)).run assignments).1

end Record

/-- A computation with a store that loads associations onto records; what it has loaded stays if it
fails. -/
abbrev Loading (σ α : Type) := ExceptT Error (StateT (List Record) (StateM σ)) α

namespace Loading

variable {σ : Type}

/-- A round trip as part of the loading. -/
def ofTrip {α : Type} (t : Trip σ α) : Loading σ α := fun roots => do
  let answer ← t.run
  return (answer, roots)

/-- The key by which the link of an association matches an owner. -/
def ownerKey (attr : String) (l : Link) (owner : Record) : Value :=
  match l with
  | .identity => owner.reference attr
  | _ => owner.id

/-- The values that are not null, each key once. -/
def distinctKeys (values : List Value) : List Value :=
  (values.filter (!·.isNull)).foldl
    (fun keys v => if keys.any (·.key = v.key) then keys else keys ++ [v]) []

/-- The records that belong to an owner with this key. -/
def recordsFor (related : List Related) (key : Value) : List Record :=
  if key.isNull then []
  else (related.filter (·.ownerKey.key = key.key)).map (·.record)

/-- Loads an association onto all owners at a path at once. -/
def joined (st : Store σ) (s : Schema) (owner path attr : String) : Loading σ Unit := do
  let r ← s.association owner attr
  let l ← s.link owner attr
  let owners := Record.ownersAt (Path.steps path) (← get)
  let pending := owners.filter (!st.isLoaded · attr)
  if pending.isEmpty then return ()
  let keys := distinctKeys (pending.map (ownerKey attr l))
  let related ←
    if keys.isEmpty then pure []
    else ofTrip (st.fetchRelated s
      { owner := owner, attr := attr, target := r.target, link := l, keys := keys, order := [],
        limit := none, offset := 0 })
  let assignment (o : Record) : Option (Loaded Record) :=
    if st.isLoaded o attr then none
    else some (.ofRecords r.kind.isToMany (recordsFor related (ownerKey attr l o)))
  modify (Record.attach (Path.steps path) attr (owners.map assignment))

/-- What a query fetch loads onto one owner, if anything. -/
def queriedOne (st : Store σ) (s : Schema) (attr : String) (query : Value → RelatedQuery)
    (l : Link) (owner : Record) : Trip σ (Option (Loaded Record)) := do
  if st.isLoaded owner attr then return none
  let key := ownerKey attr l owner
  if key.isNull then return some (.many [])
  let related ← st.fetchRelated s (query key)
  return some (.many (related.map (·.record)))

/-- What a query fetch loads onto owners, one after the other, up to the first failure. -/
def queriedAll (load : Record → Trip σ (Option (Loaded Record))) :
    List Record → StateM σ (Record.Assignments × Except Error Unit)
  | [] => return ([], .ok ())
  | owner :: rest => do
    match ← (load owner).run with
    | .error e => return ([], .error e)
    | .ok a =>
      let (assignments, outcome) ← queriedAll load rest
      return (a :: assignments, outcome)

/-- Loads a part of the targets of an association onto each owner at a path. -/
def queried (st : Store σ) (s : Schema) (owner path attr : String) (offset : Nat)
    (limit : Option Nat) (sorting : List SortKey) : Loading σ Unit := do
  let r ← s.association owner attr
  let l ← s.link owner attr
  let order ← s.resolveOrder r.target sorting
  let query (key : Value) : RelatedQuery :=
    { owner := owner, attr := attr, target := r.target, link := l, keys := [key], order := order,
      limit := limit, offset := offset }
  let owners := Record.ownersAt (Path.steps path) (← get)
  let (assignments, outcome) ←
    ofTrip (liftM (queriedAll (queriedOne st s attr query l) owners))
  modify (Record.attach (Path.steps path) attr assignments)
  outcome

/-- Carries out a fetch for the owners at a path. -/
def fetch (st : Store σ) (s : Schema) (owner path : String) (f : Fetch) : Loading σ Unit :=
  match f.kind with
  | .join _ => joined st s owner path f.name
  | .query offset limit sorting => queried st s owner path f.name offset limit sorting

/-- Carries out the fetches under a path, join fetches first. -/
def fetchesAt (st : Store σ) (s : Schema) (entity : String) (p : FetchPlan) (path : String) :
    Loading σ Unit := do
  let owner ← s.entityAt entity path
  (p.joinsAt path ++ p.queriesAt path).forM (fetch st s owner path)

/-- Carries out a plan for roots that are records of `entity`. -/
def execute (st : Store σ) (s : Schema) (entity : String) (p : FetchPlan) : Loading σ Unit := do
  if p.isEmpty || (← get).isEmpty then return ()
  p.paths.forM (fetchesAt st s entity p)

end Loading

end EntityQuery
