import EntityQuery.Proofs.Fetch.RoundTrips
import EntityQuery.Sql.Statement

/-!
# Validated plans

Validating a plan looks up whatever carrying it out looks up, for the same entities
(`validatePlan_eq_ok`). **A plan that has been validated is therefore carried out in full unless a
round trip fails** (`execute_completes`); and of a schema that has been declared **no query is asked
which a dataset could not answer, or for which there is no statement** (`execute_asks`,
`Answerable`). Both are put together in `validated_plan_executes`, whatever the store.
-/

namespace EntityQuery

/-! ## Queries that can be answered -/

/-- A dataset answers the query whatever it holds, and a statement can be made of it. -/
structure RelatedQuery.Answerable (s : Schema) (q : RelatedQuery) : Prop where
  dataset : ∀ d : Dataset, Succeeds (d.fetchRelated s q)
  statement : Succeeds (Sql.Statement.related s q)

/-- All that has to be known for a query is the entity of the targets. -/
theorem Schema.Closed.answerable {s : Schema} (closed : s.Closed) {q : RelatedQuery}
    (target : Succeeds (s.entity q.target)) : q.Answerable s := by
  obtain ⟨e, he⟩ := target
  constructor
  · intro d
    unfold Dataset.fetchRelated
    rw [he]
    exact succeeds_pure _
  · obtain ⟨projection, hprojection⟩ := closed.succeeds_projection he
    unfold Sql.Statement.related Sql.outputColumns
    simp only [he, hprojection, ok_bind]
    exact succeeds_pure _

/-! ## What has been validated -/

namespace Schema

variable {s : Schema} {c : Settings} {entity owner : String} {p : FetchPlan} {f : Fetch}

/-- A fetch that has been validated goes along an association with a link, and its order is one of
the target. -/
theorem validateFetch_eq_ok (h : s.validateFetch owner f = .ok ()) :
    ∃ r l, s.association owner f.name = .ok r ∧ s.link owner f.name = .ok l ∧
      ∀ offset limit sorting, f.kind = .query offset limit sorting →
        Succeeds (s.resolveOrder r.target sorting) := by
  obtain ⟨r, hr, h⟩ := bind_eq_ok.mp h
  obtain ⟨l, hl, h⟩ := bind_eq_ok.mp h
  refine ⟨r, l, hr, hl, fun offset limit sorting hk => ?_⟩
  rw [hk] at h
  dsimp only at h
  split at h
  · cases h
  · obtain ⟨order, horder, _⟩ := bind_eq_ok.mp h
    exact ⟨order, horder⟩

/-- Each path of a plan that has been validated leads to an entity, for which its fetches have been
validated. -/
theorem validatePlan_eq_ok (h : s.validatePlan c entity p = .ok ()) :
    ∀ path ∈ p.paths, ∃ owner, s.entityAt entity path = .ok owner ∧
      ∀ f ∈ p.joinsAt path ++ p.queriesAt path, s.validateFetch owner f = .ok () := by
  intro path hpath
  unfold validatePlan at h
  split at h
  · cases h
  have h := forM_eq_ok_iff.mp h path hpath
  unfold validatePath at h
  split at h
  · cases h
  obtain ⟨owner, howner, h⟩ := bind_eq_ok.mp h
  exact ⟨owner, howner, forM_eq_ok_iff.mp h⟩

end Schema

namespace Loading

open Record (ownersAt)

variable {σ : Type} {st : Store σ} {s : Schema} {c : Settings} {owner path attr entity : String}
  {f : Fetch} {p : FetchPlan}

/-! ## Going through to the end -/

/-- The loading gives no error, whatever there is to load onto. -/
def Completes (x : Loading σ Unit) : Prop :=
  ∀ roots state, ∃ roots' state', x roots state = ((.ok (), roots'), state')

theorem Completes.forM {α : Type} {act : α → Loading σ Unit} {l : List α}
    (h : ∀ a ∈ l, Completes (act a)) : Completes (l.forM act) := by
  induction l with
  | nil => exact fun roots state => ⟨roots, state, rfl⟩
  | cons a l ih =>
    obtain ⟨ha, hl⟩ := List.forall_mem_cons.mp h
    intro roots state
    obtain ⟨roots₁, state₁, ha⟩ := ha roots state
    obtain ⟨roots', state', hl⟩ := ih hl roots₁ state₁
    exact ⟨roots', state', forM_cons_eq_ok_iff.mpr ⟨roots₁, state₁, ha, hl⟩⟩

/-- The store answers the queries that can be answered. -/
def Answering (st : Store σ) (s : Schema) : Prop :=
  ∀ q : RelatedQuery, q.Answerable s →
    ∀ state, ∃ related state', st.fetchRelated s q state = (.ok related, state')

theorem answering_dataset : Answering Dataset.store s := by
  intro q answerable d
  obtain ⟨related, h⟩ := answerable.dataset d
  exact ⟨related, d, congrArg (·, d) h⟩

section

variable (answering : Answering st s) (closed : s.Closed)

include answering closed

theorem joined_completes (association : Succeeds (s.association owner attr))
    (link : Succeeds (s.link owner attr)) : Completes (joined st s owner path attr) := by
  obtain ⟨r, hr⟩ := association
  obtain ⟨l, hl⟩ := link
  intro roots state
  by_cases pending : ((ownersAt (Path.steps path) roots).filter (!st.isLoaded · attr)).isEmpty
  · refine ⟨roots, state, joined_eq_ok_iff.mpr ⟨r, hr, l, hl, ?_⟩⟩
    dsimp only
    rw [if_pos pending]
    exact ⟨rfl, rfl⟩
  -- Without a key there is nothing to ask for, and nothing related.
  have answer (keys : List Value) : ∃ related state',
      if keys.isEmpty then [] = related ∧ state = state'
      else st.fetchRelated s (batch owner attr r l keys) state = (.ok related, state') := by
    split
    · exact ⟨[], state, rfl, rfl⟩
    · exact answering _ (closed.answerable (closed.succeeds_target hr)) state
  obtain ⟨related, state', h⟩ := answer (distinctKeys
    (((ownersAt (Path.steps path) roots).filter (!st.isLoaded · attr)).map (ownerKey attr l)))
  refine ⟨Record.attach (Path.steps path) attr
    ((ownersAt (Path.steps path) roots).map (share st attr r l related)) roots, state',
    joined_eq_ok_iff.mpr ⟨r, hr, l, hl, ?_⟩⟩
  dsimp only
  rw [if_neg pending]
  exact ⟨related, h, rfl⟩

theorem queriedAll_completes {r : Association} {l : Link} {order : List OrderKey} {offset : Nat}
    {limit : Option Nat} (association : s.association owner attr = .ok r) (owners : List Record)
    (state : σ) :
    ∃ assignments state',
      queriedAll (queriedOne st s attr (page owner attr r l order offset limit) l) owners state =
        ((assignments, .ok ()), state') := by
  induction owners generalizing state with
  | nil => exact ⟨[], state, rfl⟩
  | cons o owners ih =>
    have one : ∃ a state₁,
        queriedOne st s attr (page owner attr r l order offset limit) l o state =
          (.ok a, state₁) := by
      simp only [queriedOne_eq_ok_iff]
      by_cases loaded : st.isLoaded o attr
      · exact ⟨none, state, by rw [if_pos loaded]; exact ⟨rfl, rfl⟩⟩
      by_cases null : (ownerKey attr l o).isNull
      · exact ⟨_, state, by rw [if_neg loaded, if_pos null]; exact ⟨rfl, rfl⟩⟩
      · obtain ⟨related, state₁, h⟩ := answering
          (page owner attr r l order offset limit (ownerKey attr l o))
          (closed.answerable (closed.succeeds_target association)) state
        exact ⟨_, state₁, by rw [if_neg loaded, if_neg null]; exact ⟨related, h, rfl⟩⟩
    obtain ⟨a, state₁, ha⟩ := one
    obtain ⟨assignments, state', h⟩ := ih state₁
    exact ⟨a :: assignments, state',
      queriedAll_cons_eq_ok_iff.mpr ⟨a, state₁, assignments, ha, h, rfl⟩⟩

/-- A fetch that has been validated goes through to the end. -/
theorem fetch_completes (valid : s.validateFetch owner f = .ok ()) :
    Completes (fetch st s owner path f) := by
  obtain ⟨r, l, hr, hl, sorts⟩ := Schema.validateFetch_eq_ok valid
  obtain ⟨name, kind⟩ := f
  cases kind with
  | join => exact joined_completes answering closed ⟨r, hr⟩ ⟨l, hl⟩
  | query offset limit sorting =>
    obtain ⟨order, horder⟩ := sorts offset limit sorting rfl
    intro roots state
    obtain ⟨assignments, state', h⟩ := queriedAll_completes answering closed hr
      (ownersAt (Path.steps path) roots) state
    exact ⟨_, state', queried_eq_ok_iff.mpr ⟨r, hr, l, hl, order, horder, assignments, h, rfl⟩⟩

/-- A plan that has been validated goes through to the end. -/
theorem execute_completes (valid : s.validatePlan c entity p = .ok ()) :
    Completes (execute st s entity p) := by
  have paths : Completes (p.paths.forM (fetchesAt st s entity p)) := by
    refine Completes.forM fun path hpath roots state => ?_
    obtain ⟨owner, howner, fetches⟩ := Schema.validatePlan_eq_ok valid path hpath
    have each : Completes ((p.joinsAt path ++ p.queriesAt path).forM (fetch st s owner path)) :=
      .forM fun f hf => fetch_completes answering closed (fetches f hf)
    obtain ⟨roots', state', h⟩ := each roots state
    exact ⟨roots', state', lift_bind_eq_ok.mpr ⟨owner, howner, h⟩⟩
  intro roots state
  show ∃ roots' state', (if p.isEmpty || roots.isEmpty then pure ()
    else p.paths.forM (fetchesAt st s entity p)) roots state = ((.ok (), roots'), state')
  split
  · exact ⟨roots, state, rfl⟩
  · exact paths roots state

end

/-! ## What is asked for -/

/-- From one state of a recorded store to another only related records have been asked for, each
query being as told. -/
def Asked (P : RelatedQuery → Prop) (r r' : Recorded σ) : Prop :=
  ∃ asked : List RelatedQuery, r'.trips = r.trips ++ asked.map .related ∧ ∀ q ∈ asked, P q

/-- Whatever the records, and however it ends, the loading asks only for related records, each query
being as told. -/
def Asks {α : Type} (P : RelatedQuery → Prop) (x : Loading (Recorded σ) α) : Prop :=
  ∀ roots r, Asked P r (x roots r).2

/-- Whether or not it goes through, carrying out a plan asks only what can be answered. -/
theorem execute_asks (closed : s.Closed) :
    Asks (·.Answerable s) (execute st.recorded s entity p) := by
  intro roots r
  obtain ⟨asked, trips, sent⟩ := execute_sends st s entity p roots r
  refine ⟨asked, trips, fun q hq => ?_⟩
  obtain ⟨e, -, owners, qs, sends, hq⟩ := sent q hq
  obtain ⟨owner, attr, r, association, target⟩ := sends.association hq
  exact closed.answerable (target ▸ closed.succeeds_target association)

/-- **A plan that has been validated is carried out without an error** for any records over any
store that answers, and so over a dataset; and whatever the store, each query asked for it is one
which a dataset answers and of which a statement can be made. -/
theorem validated_plan_executes {entities : List EntityDeclaration}
    (declared : Schema.declare entities = .ok s) (valid : s.validatePlan c entity p = .ok ()) :
    (∀ (σ : Type) (st : Store σ),
      (∀ q state, ∃ related state', st.fetchRelated s q state = (.ok related, state')) →
      ∀ roots state, ∃ roots' state',
        execute st s entity p roots state = ((.ok (), roots'), state')) ∧
    (∀ roots d, ∃ roots' d',
      execute Dataset.store s entity p roots d = ((.ok (), roots'), d')) ∧
    ∀ (σ : Type) (st : Store σ) (roots : List Record) (r : Recorded σ),
      ∃ asked : List RelatedQuery,
        (execute st.recorded s entity p roots r).2.trips = r.trips ++ asked.map .related ∧
        ∀ q ∈ asked, (∀ d : Dataset, Succeeds (d.fetchRelated s q)) ∧
          Succeeds (Sql.Statement.related s q) := by
  have closed := Schema.closed_of_declare declared
  refine ⟨fun σ st answers => ?_, ?_, fun σ st roots r => ?_⟩
  · exact execute_completes (fun q _ => answers q) closed valid
  · exact execute_completes answering_dataset closed valid
  · have asks : Asks (·.Answerable s) (execute st.recorded s entity p) := execute_asks closed
    obtain ⟨asked, htrips, answerable⟩ := asks roots r
    exact ⟨asked, htrips, fun q hq => ⟨(answerable q hq).dataset, (answerable q hq).statement⟩⟩

open Dataset.Library in
/-- The books of each author, their author, and the last of the author's books. -/
theorem validated_plan_executes_library :
    schema.validatePlan .default "Author"
      ⟨[("", .joinCollection "books"), ("books", .join "author"),
        ("books.author", ⟨"books", .query 0 (some 1) [⟨"id", .descending⟩]⟩)]⟩ = .ok () ∧
    ∀ roots d, ∃ roots' d', execute Dataset.store schema "Author"
      ⟨[("", .joinCollection "books"), ("books", .join "author"),
        ("books.author", ⟨"books", .query 0 (some 1) [⟨"id", .descending⟩]⟩)]⟩ roots d =
      ((.ok (), roots'), d') := by
  have declared : Schema.declare entities = .ok schema := by rfl
  have valid : schema.validatePlan .default "Author"
      ⟨[("", .joinCollection "books"), ("books", .join "author"),
        ("books.author", ⟨"books", .query 0 (some 1) [⟨"id", .descending⟩]⟩)]⟩ = .ok () := by cbv
  exact ⟨valid, (validated_plan_executes declared valid).2.1⟩

end Loading

end EntityQuery
