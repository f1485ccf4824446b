import EntityQuery.Proofs.Fetch.Traversal
import EntityQuery.Proofs.Outcome

/-!
# What a fetch loads

A loading that gives a value is a sequence of steps each of which does (`bind_eq_ok`). **A join
fetch that succeeds leaves everything as it is where nothing is pending, and otherwise gives each
pending owner its share of one answer** (`joined_eq_ok_iff`); **a query fetch that succeeds goes
through the owners one by one** (`queried_eq_ok_iff`, `queriedOne_eq_ok_iff`). What is known of
fetches that succeed is proved from these equivalences.
-/

namespace EntityQuery.Loading

variable {σ α β : Type} {roots roots' : List Record} {state state' : σ}

/-! ## Sequences of steps -/

theorem pure_eq_ok {a b : α} :
    (pure a : Loading σ α) roots state = ((.ok b, roots'), state') ↔
      a = b ∧ roots = roots' ∧ state = state' := by
  show ((Except.ok a, roots), state) = ((Except.ok b, roots'), state') ↔ _
  simp [and_assoc]

/-- A step after another gives a value exactly if both do, the second going on from where the first
has got. -/
theorem bind_eq_ok {x : Loading σ α} {f : α → Loading σ β} {b : β} :
    (x >>= f) roots state = ((.ok b, roots'), state') ↔
      ∃ a roots₁ state₁, x roots state = ((.ok a, roots₁), state₁) ∧
        f a roots₁ state₁ = ((.ok b, roots'), state') := by
  show ExceptT.bindCont f (x roots state).1.1 (x roots state).1.2 (x roots state).2 = _ ↔ _
  obtain ⟨⟨outcome, roots₁⟩, state₁⟩ := x roots state
  constructor
  · intro h
    cases outcome with
    | error e => cases h
    | ok a => exact ⟨a, roots₁, state₁, rfl, h⟩
  · rintro ⟨a, roots₁, state₁, h, hf⟩
    cases h
    exact hf

theorem lift_bind_eq_ok {x : Except Error α} {f : α → Loading σ β} {b : β} :
    ((liftM x : Loading σ α) >>= f) roots state = ((.ok b, roots'), state') ↔
      ∃ a, x = .ok a ∧ f a roots state = ((.ok b, roots'), state') := by
  rw [bind_eq_ok]
  constructor
  · rintro ⟨a, _, _, h, hf⟩
    cases h
    exact ⟨a, rfl, hf⟩
  · rintro ⟨a, rfl, hf⟩
    exact ⟨a, roots, state, rfl, hf⟩

theorem get_bind_eq_ok {f : List Record → Loading σ β} {b : β} :
    ((get : Loading σ (List Record)) >>= f) roots state = ((.ok b, roots'), state') ↔
      f roots roots state = ((.ok b, roots'), state') := by
  rw [bind_eq_ok]
  constructor
  · rintro ⟨records, _, _, h, hf⟩
    cases h
    exact hf
  · intro hf
    exact ⟨roots, roots, state, rfl, hf⟩

theorem modify_eq_ok {f : List Record → List Record} {u : PUnit} :
    (modify f : Loading σ PUnit) roots state = ((.ok u, roots'), state') ↔
      f roots = roots' ∧ state = state' := by
  show ((Except.ok PUnit.unit, f roots), state) = ((Except.ok u, roots'), state') ↔ _
  simp

theorem ofTrip_eq_ok {t : Trip σ α} {a : α} :
    ofTrip t roots state = ((.ok a, roots'), state') ↔
      t state = (.ok a, state') ∧ roots = roots' := by
  show (((t state).1, roots), (t state).2) = ((Except.ok a, roots'), state') ↔ _
  generalize t state = trip
  obtain ⟨answer, state₁⟩ := trip
  show _ ↔ (⟨answer, state₁⟩ : Except Error α × σ) = (.ok a, state') ∧ roots = roots'
  rw [Prod.mk.injEq, Prod.mk.injEq, Prod.mk.injEq]
  exact and_right_comm

/-- What changes the store and cannot fail is followed by the next step. -/
theorem ofTrip_lift_bind_eq_ok {x : StateM σ α} {f : α → Loading σ β} {b : β} :
    (ofTrip (liftM x) >>= f) roots state = ((.ok b, roots'), state') ↔
      ∃ a state₁, x state = (a, state₁) ∧ f a roots state₁ = ((.ok b, roots'), state') := by
  show f (x state).1 roots (x state).2 = _ ↔ _
  constructor
  · intro h
    exact ⟨(x state).1, (x state).2, rfl, h⟩
  · rintro ⟨a, state₁, hx, h⟩
    rw [hx]
    exact h

theorem forM_cons_eq_ok_iff {act : α → Loading σ Unit} {a : α} {l : List α} :
    (a :: l).forM act roots state = ((.ok (), roots'), state') ↔
      ∃ roots₁ state₁, act a roots state = ((.ok (), roots₁), state₁) ∧
        l.forM act roots₁ state₁ = ((.ok (), roots'), state') := by
  show (act a >>= fun _ => l.forM act) roots state = _ ↔ _
  rw [bind_eq_ok]
  constructor
  · rintro ⟨_, h⟩
    exact h
  · rintro h
    exact ⟨(), h⟩

/-! ## Join fetches -/

/-- The related query of a join fetch. -/
def batch (owner attr : String) (r : Association) (l : Link) (keys : List Value) : RelatedQuery :=
  { owner := owner, attr := attr, target := r.target, link := l, keys := keys, order := [],
    limit := none, offset := 0 }

/-- What a join fetch loads onto an owner, if anything. -/
def share (st : Store σ) (attr : String) (r : Association) (l : Link) (related : List Related)
    (o : Record) : Option (Loaded Record) :=
  if st.isLoaded o attr then none
  else some (.ofRecords r.kind.isToMany (recordsFor related (ownerKey attr l o)))

theorem joined_eq_ok_iff {st : Store σ} {s : Schema} {owner path attr : String} :
    joined st s owner path attr roots state = ((.ok (), roots'), state') ↔
      ∃ r, s.association owner attr = .ok r ∧ ∃ l, s.link owner attr = .ok l ∧
        let owners := Record.ownersAt (Path.steps path) roots
        let pending := owners.filter (!st.isLoaded · attr)
        let keys := distinctKeys (pending.map (ownerKey attr l))
        if pending.isEmpty then roots = roots' ∧ state = state'
        else
          ∃ related, (if keys.isEmpty then [] = related ∧ state = state'
            else st.fetchRelated s (batch owner attr r l keys) state = (.ok related, state')) ∧
          Record.attach (Path.steps path) attr (owners.map (share st attr r l related)) roots =
            roots' := by
  unfold joined
  simp only [lift_bind_eq_ok, get_bind_eq_ok]
  refine exists_congr fun r => and_congr_right fun _ => ?_
  refine exists_congr fun l => and_congr_right fun _ => ?_
  -- Nothing pending, then pending owners without a key, then a round trip.
  split
  · rw [pure_eq_ok]
    simp
  split
  · rw [pure_bind, modify_eq_ok]
    constructor
    · rintro ⟨h, rfl⟩
      exact ⟨[], ⟨rfl, rfl⟩, h⟩
    · rintro ⟨_, ⟨rfl, rfl⟩, h⟩
      exact ⟨h, rfl⟩
  · rw [bind_eq_ok]
    simp only [ofTrip_eq_ok, modify_eq_ok]
    constructor
    · rintro ⟨related, _, _, ⟨h, rfl⟩, hattach, rfl⟩
      exact ⟨related, h, hattach⟩
    · rintro ⟨related, h, hattach⟩
      exact ⟨related, roots, state', ⟨h, rfl⟩, hattach, rfl⟩

/-! ## Query fetches -/

/-- The related query of a query fetch for the owner with a key. -/
def page (owner attr : String) (r : Association) (l : Link) (order : List OrderKey) (offset : Nat)
    (limit : Option Nat) (key : Value) : RelatedQuery :=
  { owner := owner, attr := attr, target := r.target, link := l, keys := [key], order := order,
    limit := limit, offset := offset }

theorem queried_eq_ok_iff {st : Store σ} {s : Schema} {owner path attr : String} {offset : Nat}
    {limit : Option Nat} {sorting : List SortKey} :
    queried st s owner path attr offset limit sorting roots state = ((.ok (), roots'), state') ↔
      ∃ r, s.association owner attr = .ok r ∧ ∃ l, s.link owner attr = .ok l ∧
        ∃ order, s.resolveOrder r.target sorting = .ok order ∧
          let load := queriedOne st s attr (page owner attr r l order offset limit) l
          ∃ assignments,
            queriedAll load (Record.ownersAt (Path.steps path) roots) state =
              ((assignments, .ok ()), state') ∧
            Record.attach (Path.steps path) attr assignments roots = roots' := by
  unfold queried
  simp only [lift_bind_eq_ok, get_bind_eq_ok, ofTrip_lift_bind_eq_ok]
  refine exists_congr fun r => and_congr_right fun _ => ?_
  refine exists_congr fun l => and_congr_right fun _ => ?_
  refine exists_congr fun order => and_congr_right fun _ => ?_
  simp only [bind_eq_ok, modify_eq_ok]
  constructor
  · rintro ⟨⟨assignments, outcome⟩, state₁, hrun, _, _, _, ⟨hattach, rfl⟩, houtcome⟩
    cases houtcome
    exact ⟨assignments, hrun, hattach⟩
  · rintro ⟨assignments, hrun, hattach⟩
    exact ⟨(assignments, .ok ()), state', hrun, ⟨⟩, roots', state', ⟨hattach, rfl⟩, rfl⟩

theorem queriedOne_eq_ok_iff {st : Store σ} {s : Schema} {attr : String}
    {query : Value → RelatedQuery} {l : Link} {o : Record} {a : Option (Loaded Record)} :
    queriedOne st s attr query l o state = (.ok a, state') ↔
      let key := ownerKey attr l o
      if st.isLoaded o attr then none = a ∧ state = state'
      else if key.isNull then some (.many []) = a ∧ state = state'
      else ∃ related, st.fetchRelated s (query key) state = (.ok related, state') ∧
        some (.many (related.map (·.record))) = a := by
  have pure_ok (b : Option (Loaded Record)) :
      (pure b : Trip σ _) state = (.ok a, state') ↔ b = a ∧ state = state' := by
    show (Except.ok b, state) = (Except.ok a, state') ↔ _
    simp
  unfold queriedOne
  dsimp only
  split
  · exact pure_ok none
  split
  · exact pure_ok _
  · show (ExceptT.bindCont _ (st.fetchRelated s (query (ownerKey attr l o)) state).1 :
      StateM σ _) (st.fetchRelated s _ state).2 = _ ↔ _
    generalize st.fetchRelated s _ state = trip
    obtain ⟨answer, state₁⟩ := trip
    constructor
    · intro h
      cases answer with
      | error e => cases h
      | ok related =>
        cases h
        exact ⟨related, rfl, rfl⟩
    · rintro ⟨related, h, rfl⟩
      cases h
      rfl

theorem queriedAll_cons_eq_ok_iff {load : Record → Trip σ (Option (Loaded Record))} {o : Record}
    {owners : List Record} {assignments : Record.Assignments} :
    queriedAll load (o :: owners) state = ((assignments, .ok ()), state') ↔
      ∃ a state₁ rest, load o state = (.ok a, state₁) ∧
        queriedAll load owners state₁ = ((rest, .ok ()), state') ∧ a :: rest = assignments := by
  rw [queriedAll]
  show StateT.bind (load o) _ state = _ ↔ _
  delta StateT.bind
  generalize load o state = trip
  obtain ⟨answer, state₁⟩ := trip
  cases answer with
  | error e =>
    constructor
    · intro h
      cases h
    · rintro ⟨_, _, _, h, _⟩
      cases h
  | ok a =>
    show ((a :: (queriedAll load owners state₁).1.1, (queriedAll load owners state₁).1.2),
      (queriedAll load owners state₁).2) = _ ↔ _
    constructor
    · generalize hrun : queriedAll load owners state₁ = run
      obtain ⟨⟨rest, outcome⟩, state₂⟩ := run
      intro h
      cases h
      exact ⟨a, state₁, rest, rfl, hrun, rfl⟩
    · rintro ⟨_, _, rest, h, hrest, rfl⟩
      cases h
      rw [hrest]

/-- Owners that are gone through without a failure are each given what was loaded for them. -/
theorem forall₂_of_queriedAll {R : Record → Option (Loaded Record) → Prop}
    {load : Record → Trip σ (Option (Loaded Record))}
    (h : ∀ o a state state', load o state = (.ok a, state') → R o a) {owners : List Record}
    {assignments : Record.Assignments}
    (done : queriedAll load owners state = ((assignments, .ok ()), state')) :
    List.Forall₂ R owners assignments := by
  induction owners generalizing state assignments with
  | nil =>
    cases done
    exact .nil
  | cons o owners ih =>
    obtain ⟨a, state₁, rest, ha, hrest, rfl⟩ := queriedAll_cons_eq_ok_iff.mp done
    exact .cons (h o a state state₁ ha) (ih hrest)

/-- Owners for each of which something is loaded without a change of the store are gone through. -/
theorem queriedAll_of_forall {load : Record → Trip σ (Option (Loaded Record))}
    {f : Record → Option (Loaded Record)} {owners : List Record}
    (h : ∀ o ∈ owners, load o state = (.ok (f o), state)) :
    queriedAll load owners state = ((owners.map f, .ok ()), state) := by
  induction owners with
  | nil => rfl
  | cons o owners ih =>
    obtain ⟨ho, howners⟩ := List.forall_mem_cons.mp h
    exact queriedAll_cons_eq_ok_iff.mpr ⟨f o, state, _, ho, ih howners, rfl⟩

end EntityQuery.Loading
