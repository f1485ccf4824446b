import EntityQuery.Fetch.Loading
import EntityQuery.Fetch.PlanText
import EntityQuery.Pager

/-! # Requests

A request asks for a page of the records of an entity: those that a filter keeps, in the order and
part that a pager asks for, with the associations that a fetch plan names. It is prepared in full
before the store is asked anything. -/
namespace EntityQuery

/-- A request as its texts. -/
structure Request where
  entity : String
  filter : String
  pager : Pager
  /-- The text of the fetch plan. -/
  fetch : String

/-- A request ready to be answered. -/
structure Prepared where
  select : Selection
  /-- What is counted, unless counting is turned off. -/
  count : Option Selection
  plan : FetchPlan

/-- The JSON form of a prepared request. -/
def Prepared.json (p : Prepared) : Json :=
  .object [("select", p.select.json), ("count", .ofOption Selection.json p.count),
    ("plan", p.plan.json)]

namespace Request

/-- Prepares a request, or gives the first of its errors: of the limits of the page, the filter, the
fetch plan, the sort order. -/
def prepare (s : Schema) (c : Settings) (r : Request) : Except Error Prepared := do
  r.pager.validateLimits c
  let filter ← s.compileFilter c.nullSafeEquality r.filter r.entity
  let plan ← FetchPlan.parse r.fetch
  s.validatePlan c r.entity plan
  let order ← s.resolveOrder r.entity r.pager.sort
  let select := ((Selection.ofFilter r.entity filter).withOrder order).paged r.pager.size
    r.pager.offset
  return ⟨select, if r.pager.countEnabled then some select.forCount else none, plan⟩

variable {σ α : Type}

/-- Answers a request: the page, then the count, then the fetch plan path by path. -/
def records (st : Store σ) (s : Schema) (c : Settings) (r : Request) : Trip σ (Page Record) := do
  let prepared ← r.prepare s c
  let items ← st.select s prepared.select
  let total ← prepared.count.mapM (st.count s)
  let items ← fun state =>
    let ((outcome, items), state) := (Loading.execute st s r.entity prepared.plan).run items state
    (outcome.map fun _ => items, state)
  return ⟨items, r.pager.page, r.pager.size, total⟩

/-- What `decode` makes of the JSON form of a record. -/
def materialize (decode : Json → Except String α) (r : Record) : Except Error α :=
  match decode r.json with
  | .ok a => .ok a
  | .error reason => .error (.store (.notMaterialized r.entity r.id.display reason))

/-- Answers a request with what `decode` makes of the records. -/
def materialized (decode : Json → Except String α) (st : Store σ) (s : Schema) (c : Settings)
    (r : Request) : Trip σ (Page α) := do
  let page ← r.records st s c
  page.mapItems fun item => liftM (materialize decode item)

/-- How many records of an entity a filter keeps. -/
def count (st : Store σ) (s : Schema) (c : Settings) (filter entity : String) : Trip σ Int := do
  let compiled ← s.compileFilter c.nullSafeEquality filter entity
  st.count s (.ofFilter entity compiled)

end Request

end EntityQuery
