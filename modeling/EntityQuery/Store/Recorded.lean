import EntityQuery.Store.Basic

/-! # Recorded stores

A recorded store notes every round trip before it makes it, and can be told to fail one of them. -/
namespace EntityQuery

/-- A round trip to a store. -/
inductive RoundTrip where
  | select (q : Selection)
  | count (q : Selection)
  | related (q : RelatedQuery)

/-- The related query, if the round trip is one. -/
def RoundTrip.related? : RoundTrip → Option RelatedQuery
  | related q => some q
  | _ => none

/-- The state of a recorded store. -/
structure Recorded (σ : Type) where
  state : σ
  /-- The round trips so far, in order. -/
  trips : List RoundTrip
  /-- The round trip that fails, counted from one, and how. -/
  failure : Option (Nat × Error)

namespace Recorded

variable {σ α : Type}

/-- The error with which the round trip just noted fails. -/
def failureNow? (r : Recorded σ) : Option Error :=
  r.failure.bind fun p => if p.1 = r.trips.length then some p.2 else none

/-- Notes a round trip and makes it. -/
def trip (note : RoundTrip) (run : Trip σ α) : Trip (Recorded σ) α := fun r =>
  let r := { r with trips := r.trips ++ [note] }
  match r.failureNow? with
  | some e => (.error e, r)
  | none =>
    let (answer, state) := run.run r.state
    (answer, { r with state := state })

end Recorded

/-- The store with its round trips noted. -/
def Store.recorded {σ : Type} (st : Store σ) : Store (Recorded σ) where
  select s q := Recorded.trip (.select q) (st.select s q)
  count s q := Recorded.trip (.count q) (st.count s q)
  fetchRelated s q := Recorded.trip (.related q) (st.fetchRelated s q)
  isLoaded := st.isLoaded

end EntityQuery
