import EntityQuery.Proofs.Fetch.Forest

/-!
# Round trips

**Carrying out a plan asks the store at most once for each join fetch, whatever the number of
records, and at most once for each query fetch and each record that stands at its path**
(`execute_round_trips`). This is so for every store, also for one that says of loaded associations
that they are not, and up to the first round trip that fails.

What a fetch may ask is `Sends`, with what follows of it for the number of queries
(`Sends.length_le`) and their keys (`Sends.keys`). How it adds up over a plan is `Loading.Accounts`,
which holds of a sequence of fetches (`Accounts.forM`) because what stands at a path does not change
once the fetches above it have been carried out (`Steady`, `steady_attach`).
-/

namespace EntityQuery

namespace Record

/-! ## What stands at a path -/

/-- The records are the same but for what has been loaded onto them. -/
def SameRow (r r' : Record) : Prop := r'.bare = r.bare

theorem SameRow.refl (r : Record) : SameRow r r := rfl

theorem sameRow_setRelation (r : Record) (attr : String) (l : Loaded Record) :
    SameRow r (r.setRelation attr l) := rfl

/-- The records reached in at most `depth` steps are the same but for what is loaded onto them. -/
def Steady (depth : Nat) (roots roots' : List Record) : Prop :=
  ∀ path : List String, path.length ≤ depth →
    (ownersAt path roots').map bare = (ownersAt path roots).map bare

namespace Steady

variable {depth depth' : Nat} {roots roots' roots'' : List Record}

theorem refl (depth : Nat) (roots : List Record) : Steady depth roots roots := fun _ _ => rfl

theorem trans (first : Steady depth roots roots') (second : Steady depth roots' roots'') :
    Steady depth roots roots'' :=
  fun path short => (second path short).trans (first path short)

theorem mono (steady : Steady depth roots roots') (h : depth' ≤ depth) :
    Steady depth' roots roots' :=
  fun path short => steady path (short.trans h)

end Steady

theorem map_bare_ownersAt {path short : List String} (h : short.length ≤ path.length)
    {roots roots' : List Record}
    (along : List.Forall₂ (Along SameRow path) roots roots') :
    (ownersAt short roots').map bare = (ownersAt short roots).map bare := by
  induction short generalizing path roots roots' with
  | nil =>
    rw [ownersAt, ownersAt, ← List.forall₂_eq_eq_eq, List.forall₂_map_left_iff,
      List.forall₂_map_right_iff]
    exact along.flip.imp fun _ _ h => h.self (R := SameRow) SameRow.refl sameRow_setRelation
  | cons segment short ih =>
    cases path with
    | nil => cases h
    | cons first path =>
      exact ih (Nat.le_of_succ_le_succ h)
        (List.rel_flatMap along fun _ _ h => h.related SameRow.refl segment)

/-- Loading onto what a path leads to changes nothing in what stands there or above it. -/
theorem steady_attach (path : List String) (attr : String) (assignments : Assignments)
    (roots : List Record) : Steady path.length roots (attach path attr assignments roots) :=
  fun _ short => map_bare_ownersAt short
    (forall₂_along_attach SameRow.refl (sameRow_setRelation · attr) path assignments roots)

end Record

namespace Loading

open Record (ownersAt Steady)

/-! ## The keys of a batch -/

theorem nodup_keys_send {keys : List Value} (h : (keys.map Value.key).Nodup) (v : Value) :
    ((send keys v).map Value.key).Nodup := by
  unfold send
  split
  · exact h
  · next fresh =>
    rw [List.map_append, List.map_singleton, List.nodup_append_comm, List.singleton_append,
      List.nodup_cons]
    refine ⟨fun known => fresh ?_, h⟩
    obtain ⟨k, hk, same⟩ := List.mem_map.mp known
    exact List.any_eq_true.mpr ⟨k, hk, decide_eq_true same⟩

theorem nodup_keys_distinctKeys (values : List Value) :
    ((distinctKeys values).map Value.key).Nodup := by
  suffices sent : ∀ (values keys : List Value), (keys.map Value.key).Nodup →
      ((values.foldl send keys).map Value.key).Nodup from sent _ [] List.nodup_nil
  intro values
  induction values with
  | nil => exact fun _ h => h
  | cons v values ih => exact fun keys h => ih _ (nodup_keys_send h v)

theorem mem_send {keys : List Value} {v k : Value} (h : k ∈ send keys v) : k ∈ keys ∨ k = v := by
  unfold send at h
  split at h
  · exact .inl h
  · simpa using h

/-- The keys of a batch are among those of the owners, without null. -/
theorem mem_of_mem_distinctKeys {values : List Value} {k : Value} (h : k ∈ distinctKeys values) :
    k ∈ values ∧ k.isNull = false := by
  suffices sent : ∀ (values keys : List Value), k ∈ values.foldl send keys →
      k ∈ keys ∨ k ∈ values by
    have known := (sent (values.filter (!·.isNull)) [] h).resolve_left List.not_mem_nil
    simpa using known
  intro values
  induction values with
  | nil => exact fun _ h => .inl h
  | cons v values ih =>
    intro keys h
    rw [List.mem_cons, ← or_assoc]
    exact (ih _ h).imp_left mem_send

/-! ## What a fetch may ask -/

/-- Queries that a fetch under a path may ask for these owners, if it asks for anything. A join
fetch asks once, for keys of owners that are not null and differ from each other; a query fetch asks
for one key that is not null at a time, going through the owners in their order. -/
inductive Sends (s : Schema) (entity : String) (owners : List Record) :
    String × Fetch → List RelatedQuery → Prop
  | nothing (e : String × Fetch) : Sends s entity owners e []
  | batch {path name owner : String} {collection : Bool} {r : Association} {l : Link}
      {keys : List Value} (entered : s.entityAt entity path = .ok owner)
      (association : s.association owner name = .ok r) (linked : s.link owner name = .ok l)
      (some : keys ≠ []) (notNull : ∀ k ∈ keys, k.isNull = false)
      (distinct : (keys.map Value.key).Nodup) (standing : keys ⊆ owners.map (ownerKey name l)) :
      Sends s entity owners (path, ⟨name, .join collection⟩) [batch owner name r l keys]
  | pages {path name owner : String} {offset : Nat} {limit : Option Nat} {sorting : List SortKey}
      {r : Association} {l : Link} {order : List OrderKey} {keys : List Value}
      (entered : s.entityAt entity path = .ok owner)
      (association : s.association owner name = .ok r) (linked : s.link owner name = .ok l)
      (sorted : s.resolveOrder r.target sorting = .ok order)
      (notNull : ∀ k ∈ keys, k.isNull = false)
      (standing : keys.Sublist (owners.map (ownerKey name l))) :
      Sends s entity owners (path, ⟨name, .query offset limit sorting⟩)
        (keys.map (page owner name r l order offset limit))

variable {σ α : Type} {st : Store σ} {s : Schema} {entity owner path attr : String} {depth : Nat}
  {e : String × Fetch} {qs : List RelatedQuery} {owners owners' : List Record}

/-- The number of queries is bounded by the fetch and the number of owners. -/
theorem Sends.length_le (sends : Sends s entity owners e qs) :
    qs.length ≤ if e.2.isQuery then owners.length else 1 := by
  cases sends with
  | nothing => exact Nat.zero_le _
  | batch => exact Nat.le_refl 1
  | pages _ _ _ _ _ standing => simpa [Fetch.isQuery] using standing.length_le

/-- Every query is for keys, none of them null and no two the same; for one alone if it is part of a
query fetch. -/
theorem Sends.keys (sends : Sends s entity owners e qs) {q : RelatedQuery} (hq : q ∈ qs) :
    q.keys ≠ [] ∧ (∀ k ∈ q.keys, k.isNull = false) ∧ (q.keys.map Value.key).Nodup ∧
      (e.2.isQuery → ∃ key, q.keys = [key]) := by
  cases sends with
  | nothing => cases hq
  | batch _ _ _ some notNull distinct _ =>
    rw [List.mem_singleton.mp hq]
    exact ⟨some, notNull, distinct, nofun⟩
  | pages _ _ _ _ notNull _ =>
    obtain ⟨key, hkey, rfl⟩ := List.mem_map.mp hq
    refine ⟨List.cons_ne_nil _ _, ?_, List.nodup_singleton _, fun _ => ⟨key, rfl⟩⟩
    exact fun k hk => notNull k (List.mem_singleton.mp hk ▸ hkey)

/-- Every query is for the targets of an association. -/
theorem Sends.association (sends : Sends s entity owners e qs) {q : RelatedQuery} (hq : q ∈ qs) :
    ∃ owner attr r, s.association owner attr = .ok r ∧ q.target = r.target := by
  cases sends with
  | nothing => cases hq
  | batch _ association =>
    rw [List.mem_singleton.mp hq]
    exact ⟨_, _, _, association, rfl⟩
  | pages _ association =>
    obtain ⟨key, -, rfl⟩ := List.mem_map.mp hq
    exact ⟨_, _, _, association, rfl⟩

theorem ownerKey_bare (attr : String) (l : Link) (o : Record) :
    ownerKey attr l o.bare = ownerKey attr l o := by
  cases l <;> rfl

/-- What has been loaded onto the owners does not matter. -/
theorem Sends.congr (sends : Sends s entity owners e qs)
    (same : owners'.map Record.bare = owners.map Record.bare) : Sends s entity owners' e qs := by
  have keys (attr : String) (l : Link) :
      owners.map (ownerKey attr l) = owners'.map (ownerKey attr l) := by
    have same := congrArg (List.map (ownerKey attr l)) same.symm
    simpa only [List.map_map, Function.comp_def, ownerKey_bare] using same
  cases sends with
  | nothing => exact .nothing e
  | batch entered association linked some notNull distinct standing =>
    exact .batch entered association linked some notNull distinct (keys _ _ ▸ standing)
  | pages entered association linked sorted notNull standing =>
    exact .pages entered association linked sorted notNull (keys _ _ ▸ standing)

/-! ## Accounts -/

section

variable {roots roots' : List Record} {r r' : Recorded σ} {fetches : List (String × Fetch)}

/-- Between two states of a recorded store the fetches have been carried out in turn, each asking
what it may for the owners that stand at its path in the end; and what is reached in at most `depth`
steps is the same but for what has been loaded onto it. -/
def Accounted (s : Schema) (entity : String) (depth : Nat) (fetches : List (String × Fetch))
    (roots roots' : List Record) (r r' : Recorded σ) : Prop :=
  ∃ asked : List (List RelatedQuery), r'.trips = r.trips ++ asked.flatten.map .related ∧
    List.Forall₂ (fun e => Sends s entity (ownersAt (Path.steps e.1) roots') e) fetches asked ∧
    Steady depth roots roots'

theorem Accounted.nothing : Accounted s entity depth fetches roots roots r r := by
  refine ⟨fetches.map fun _ => [], ?_, ?_, .refl depth roots⟩
  · rw [List.flatten_eq_nil_iff.mpr (by simp), List.map_nil, List.append_nil]
  · exact List.forall₂_map_right_iff.mpr (List.forall₂_same.mpr fun e _ => .nothing e)

theorem Accounted.one (sends : Sends s entity (ownersAt (Path.steps e.1) roots) e qs)
    (asked : r'.trips = r.trips ++ qs.map .related)
    (steady : Steady (Path.depth e.1) roots roots') :
    Accounted s entity (Path.depth e.1) [e] roots roots' r r' := by
  have standing := steady (Path.steps e.1) (Path.length_steps e.1).le
  exact ⟨[qs], by simpa using asked, .cons (sends.congr standing) .nil, steady⟩

theorem Accounted.mono {depth' : Nat} (h : depth' ≤ depth)
    (accounted : Accounted s entity depth fetches roots roots' r r') :
    Accounted s entity depth' fetches roots roots' r r' :=
  accounted.imp fun _ ⟨trips, sends, steady⟩ => ⟨trips, sends, steady.mono h⟩

/-- The loading accounts for what it asks, whatever there is to load onto and however it ends. -/
def Accounts (s : Schema) (entity : String) (depth : Nat) (fetches : List (String × Fetch))
    (x : Loading (Recorded σ) Unit) : Prop :=
  ∀ roots r, Accounted s entity depth fetches roots (x roots r).1.2 r (x roots r).2

theorem Accounts.mono {depth' : Nat} {x : Loading (Recorded σ) Unit} (h : depth' ≤ depth)
    (accounts : Accounts s entity depth fetches x) : Accounts s entity depth' fetches x :=
  fun roots r => (accounts roots r).mono h

theorem Accounts.lift_bind {y : Except Error α} {next : α → Loading (Recorded σ) Unit}
    (h : ∀ a, y = .ok a → Accounts s entity depth fetches (next a)) :
    Accounts s entity depth fetches ((liftM y : Loading (Recorded σ) α) >>= next) := by
  cases y with
  | error e => exact fun _ _ => .nothing
  | ok a => exact h a rfl

theorem Accounts.get_bind {next : List Record → Loading (Recorded σ) Unit}
    (h : ∀ roots r, Accounted s entity depth fetches roots (next roots roots r).1.2 r
      (next roots roots r).2) :
    Accounts s entity depth fetches ((get : Loading (Recorded σ) (List Record)) >>= next) := h

end

/-! ## One fetch -/

theorem ofTrip_bind {β : Type} (t : Trip σ α) (next : α → Loading σ β) (roots : List Record)
    (state : σ) :
    (ofTrip t >>= next) roots state =
      match t state with
      | (.error e, state') => ((.error e, roots), state')
      | (.ok a, state') => next a roots state' := by
  show (ExceptT.bindCont next (t state).1 : StateT (List Record) (StateM σ) _) roots (t state).2 = _
  obtain ⟨_ | _, _⟩ := t state <;> rfl

theorem trips_fetchRelated (st : Store σ) (s : Schema) (q : RelatedQuery) (r : Recorded σ) :
    (st.recorded.fetchRelated s q r).2.trips = r.trips ++ [.related q] := by
  show (Recorded.trip (.related q) (st.fetchRelated s q) r).2.trips = _
  unfold Recorded.trip
  dsimp only
  split <;> rfl

theorem accounts_joined (entered : s.entityAt entity path = .ok owner) (collection : Bool) :
    Accounts s entity (Path.depth path) [(path, ⟨attr, .join collection⟩)]
      (joined st.recorded s owner path attr) := by
  unfold joined
  refine .lift_bind fun a association => .lift_bind fun l linked => .get_bind fun roots r => ?_
  dsimp only
  split
  · exact .nothing
  have steady (assignments : Record.Assignments) : Steady (Path.depth path) roots
      (Record.attach (Path.steps path) attr assignments roots) :=
    Path.length_steps path ▸ Record.steady_attach (Path.steps path) attr assignments roots
  split
  · exact .one (.nothing _) (List.append_nil _).symm (steady _)
  next some =>
  generalize hkeys : distinctKeys (((ownersAt (Path.steps path) roots).filter
    (!st.recorded.isLoaded · attr)).map (ownerKey attr l)) = keys at some ⊢
  have sends : Sends s entity (ownersAt (Path.steps path) roots) (path, ⟨attr, .join collection⟩)
      [batch owner attr a l keys] := by
    refine .batch entered association linked (by simpa using some) ?_ ?_ ?_
    · exact fun k hk => (mem_of_mem_distinctKeys (hkeys ▸ hk)).2
    · exact hkeys ▸ nodup_keys_distinctKeys _
    · exact fun k hk => (List.filter_sublist.map _).subset (mem_of_mem_distinctKeys (hkeys ▸ hk)).1
  have asked := trips_fetchRelated st s (batch owner attr a l keys) r
  unfold batch at asked
  rw [ofTrip_bind]
  generalize st.recorded.fetchRelated s _ r = trip at asked ⊢
  obtain ⟨answer, r'⟩ := trip
  -- The round trip has been noted whether or not it fails.
  cases answer with
  | error e => exact .one sends asked (.refl _ roots)
  | ok related => exact .one sends asked (steady _)

/-! ### Owners one by one -/

section

variable (st s attr) (query : Value → RelatedQuery) (l : Link)

theorem exists_keys_of_queriedOne (o : Record) (r : Recorded σ) :
    ∃ keys : List Value, keys.Sublist [ownerKey attr l o] ∧ (∀ k ∈ keys, k.isNull = false) ∧
      (queriedOne st.recorded s attr query l o r).2.trips =
        r.trips ++ (keys.map query).map .related := by
  unfold queriedOne
  dsimp only
  -- Nothing is asked for an owner that has been loaded onto or that has no key.
  split
  · exact ⟨[], List.nil_sublist _, List.forall_mem_nil _, (List.append_nil _).symm⟩
  split
  · exact ⟨[], List.nil_sublist _, List.forall_mem_nil _, (List.append_nil _).symm⟩
  next notNull =>
  refine ⟨[ownerKey attr l o], List.Sublist.refl _, by simpa using notNull, ?_⟩
  have asked := trips_fetchRelated st s (query (ownerKey attr l o)) r
  show ((ExceptT.bindCont _ (st.recorded.fetchRelated s _ r).1 : StateM (Recorded σ) _)
    (st.recorded.fetchRelated s _ r).2).2.trips = _
  generalize st.recorded.fetchRelated s _ r = trip at asked ⊢
  obtain ⟨_ | _, _⟩ := trip <;> exact asked

/-- Going through the owners asks for their keys in turn, leaving some out. -/
theorem exists_keys_of_queriedAll (owners : List Record) (r : Recorded σ) :
    ∃ keys : List Value, keys.Sublist (owners.map (ownerKey attr l)) ∧
      (∀ k ∈ keys, k.isNull = false) ∧
      (queriedAll (queriedOne st.recorded s attr query l) owners r).2.trips =
        r.trips ++ (keys.map query).map .related := by
  induction owners generalizing r with
  | nil => exact ⟨[], List.nil_sublist _, List.forall_mem_nil _, (List.append_nil _).symm⟩
  | cons o owners ih =>
    obtain ⟨keys, standing, notNull, asked⟩ :=
      exists_keys_of_queriedOne st s attr query l o r
    rw [queriedAll]
    show ∃ keys, _ ∧ _ ∧ (StateT.bind (queriedOne st.recorded s attr query l o) _ r).2.trips = _
    delta StateT.bind
    generalize queriedOne st.recorded s attr query l o r = trip at asked ⊢
    obtain ⟨answer, r₁⟩ := trip
    cases answer with
    | error e => exact ⟨keys, standing.trans (List.sublist_append_left _ _), notNull, asked⟩
    | ok a =>
      obtain ⟨keys', standing', notNull', asked'⟩ := ih r₁
      refine ⟨keys ++ keys', standing.append standing', ?_, ?_⟩
      · exact List.forall_mem_append.mpr ⟨notNull, notNull'⟩
      · refine asked'.trans ?_
        rw [asked, List.map_append, List.map_append, List.append_assoc]

end

theorem accounts_queried (entered : s.entityAt entity path = .ok owner) (offset : Nat)
    (limit : Option Nat) (sorting : List SortKey) :
    Accounts s entity (Path.depth path) [(path, ⟨attr, .query offset limit sorting⟩)]
      (queried st.recorded s owner path attr offset limit sorting) := by
  unfold queried
  refine .lift_bind fun a association => .lift_bind fun l linked => .lift_bind fun order sorted =>
    .get_bind fun roots r => ?_
  obtain ⟨keys, standing, notNull, asked⟩ := exists_keys_of_queriedAll st s attr
    (page owner attr a l order offset limit) l (ownersAt (Path.steps path) roots) r
  refine .one (.pages entered association linked sorted notNull standing) asked ?_
  exact Path.length_steps path ▸ Record.steady_attach (Path.steps path) attr _ roots

theorem accounts_fetch (entered : s.entityAt entity path = .ok owner) (f : Fetch) :
    Accounts s entity (Path.depth path) [(path, f)] (fetch st.recorded s owner path f) := by
  obtain ⟨name, kind⟩ := f
  cases kind with
  | join collection => exact accounts_joined entered collection
  | query offset limit sorting => exact accounts_queried entered offset limit sorting

/-! ## Fetches in turn -/

section

variable {depth' : Nat} {shallow deep : List (String × Fetch)}

/-- Fetches under paths of at most `depth'` steps still ask for what stands there if nothing above
that depth changes afterwards. -/
theorem Accounted.append {roots₁ : List Record} {r₁ : Recorded σ}
    (first : Accounted s entity depth shallow roots roots₁ r r₁)
    (own : ∀ e ∈ shallow, Path.depth e.1 ≤ depth') (deeper : depth ≤ depth')
    (second : Accounted s entity depth' deep roots₁ roots' r₁ r') :
    Accounted s entity depth (shallow ++ deep) roots roots' r r' := by
  obtain ⟨asked, trips, sends, steady⟩ := first
  obtain ⟨asked', trips', sends', steady'⟩ := second
  refine ⟨asked ++ asked', ?_, ?_, steady.trans (steady'.mono deeper)⟩
  · rw [trips', trips, List.flatten_append, List.map_append, List.append_assoc]
  · have standing := (List.forall₂_and_left _ _).mpr ⟨own, sends⟩
    refine List.rel_append (standing.imp fun e qs h => ?_) sends'
    exact h.2.congr (steady' _ ((Path.length_steps e.1).le.trans h.1))

theorem Accounts.bind {x y : Loading (Recorded σ) Unit} (hx : Accounts s entity depth shallow x)
    (own : ∀ e ∈ shallow, Path.depth e.1 ≤ depth') (deeper : depth ≤ depth')
    (hy : Accounts s entity depth' deep y) :
    Accounts s entity depth (shallow ++ deep) (x >>= fun _ => y) := by
  intro roots r
  have first := hx roots r
  show Accounted s entity depth (shallow ++ deep) roots
    ((ExceptT.bindCont (fun _ => y) (x roots r).1.1 : StateT _ (StateM _) _)
      (x roots r).1.2 (x roots r).2).1.2 r
    ((ExceptT.bindCont (fun _ => y) (x roots r).1.1 : StateT _ (StateM _) _)
      (x roots r).1.2 (x roots r).2).2
  generalize x roots r = done at first ⊢
  obtain ⟨⟨_ | _, roots₁⟩, r₁⟩ := done
  · exact first.append own deeper .nothing
  · exact first.append own deeper (hy roots₁ r₁)

end

theorem Accounts.forM {α : Type} {act : α → Loading (Recorded σ) Unit} {l : List α}
    {depths : α → Nat} {fetches : α → List (String × Fetch)}
    (each : ∀ a ∈ l, Accounts s entity (depths a) (fetches a) (act a))
    (own : ∀ a ∈ l, ∀ e ∈ fetches a, Path.depth e.1 ≤ depths a)
    (sorted : l.Pairwise fun a b => depths a ≤ depths b) (above : ∀ a ∈ l, depth ≤ depths a) :
    Accounts s entity depth (l.flatMap fetches) (l.forM act) := by
  induction l generalizing depth with
  | nil => exact fun _ _ => .nothing
  | cons a l ih =>
    obtain ⟨ha, each⟩ := List.forall_mem_cons.mp each
    obtain ⟨owna, own⟩ := List.forall_mem_cons.mp own
    obtain ⟨deeper, sorted⟩ := List.pairwise_cons.mp sorted
    have here : depth ≤ depths a := above a List.mem_cons_self
    exact (ha.mono here).bind owna here (ih each own sorted deeper)

theorem accounts_fetchesAt (p : FetchPlan) (path : String) :
    Accounts s entity (Path.depth path) ((p.joinsAt path ++ p.queriesAt path).map (path, ·))
      (fetchesAt st.recorded s entity p path) := by
  unfold fetchesAt
  refine .lift_bind fun owner entered => ?_
  rw [List.map_eq_flatMap]
  refine .forM (fun f _ => accounts_fetch entered f) ?_ ?_ ?_
  · simp
  · exact List.pairwise_of_forall fun _ _ => Nat.le_refl _
  · exact fun _ _ => Nat.le_refl _

end Loading

/-! ## A whole plan -/

/-- Taking the elements with one key after the other takes each once, if no key comes twice. -/
theorem flatMap_filter_perm {α β : Type} [DecidableEq β] (key : α → β) {keys : List β}
    (distinct : keys.Nodup) {l : List α} (covered : ∀ a ∈ l, key a ∈ keys) :
    (keys.flatMap fun k => l.filter (key · = k)).Perm l := by
  induction keys generalizing l with
  | nil =>
    have empty : l = [] :=
      List.eq_nil_iff_forall_not_mem.mpr fun a ha => List.not_mem_nil (covered a ha)
    rw [empty]
    exact .nil
  | cons k keys ih =>
    obtain ⟨fresh, distinct⟩ := List.nodup_cons.mp distinct
    have rest : (keys.flatMap fun k' => l.filter (key · = k')) =
        keys.flatMap fun k' => (l.filter (key · ≠ k)).filter (key · = k') := by
      refine List.flatMap_congr fun k' hk' => ?_
      rw [List.filter_filter]
      refine List.filter_congr fun a _ => ?_
      have : k' ≠ k := fun h => fresh (h ▸ hk')
      grind
    rw [List.flatMap_cons, rest]
    refine (List.Perm.append_left _ (ih distinct ?_)).trans ?_
    · intro a ha
      have := covered a (List.mem_of_mem_filter ha)
      grind
    · simpa using List.filter_append_perm (key · = k) l

namespace FetchPlan

/-- The fetches of the plan, in the order in which they are carried out. -/
def carriedOut (p : FetchPlan) : List (String × Fetch) :=
  p.paths.flatMap fun path => (p.joinsAt path ++ p.queriesAt path).map (path, ·)

theorem map_fetchesAt (p : FetchPlan) (query : Bool) (path : String) :
    (p.fetchesAt query path).map (path, ·) =
      (p.entries.filter (·.1 = path)).filter (·.2.isQuery = query) := by
  have here (e : String × Fetch) (he : e ∈ (p.ofKind query).filter (·.1 = path)) :
      (path, e.2) = e := by
    rw [← of_decide_eq_true (List.mem_filter.mp he).2]
  unfold fetchesAt
  rw [List.map_map, List.map_congr_left (f := (path, ·) ∘ (·.2)) (g := id) here, List.map_id]
  exact List.filter_comm _ _ _

theorem perm_carriedOut (p : FetchPlan) : p.carriedOut.Perm p.entries := by
  refine .trans ?_ (flatMap_filter_perm (·.1) p.nodup_paths fun e he => ?_)
  · refine .flatMap_left _ fun path _ => ?_
    unfold joinsAt queriesAt
    rw [List.map_append, map_fetchesAt, map_fetchesAt]
    simpa using List.filter_append_perm (·.2.isQuery = false) (p.entries.filter (·.1 = path))
  · exact Path.mem_ordered_iff.mpr (List.mem_map_of_mem he)

end FetchPlan

namespace Loading

variable {σ : Type} {st : Store σ} {s : Schema} {entity : String}

theorem accounts_execute (p : FetchPlan) :
    Accounts s entity 0 p.carriedOut (execute st.recorded s entity p) := by
  unfold execute
  refine .get_bind fun roots r => ?_
  split
  · exact .nothing
  have own (path : String) (_ : path ∈ p.paths) : ∀ e ∈ (p.joinsAt path ++ p.queriesAt path).map
      (path, ·), Path.depth e.1 ≤ Path.depth path := by
    intro e he
    obtain ⟨f, -, rfl⟩ := List.mem_map.mp he
    exact Nat.le_refl _
  exact Accounts.forM (fun path _ => accounts_fetchesAt p path) own
    (Path.pairwise_depth_ordered _) (fun _ _ => Nat.zero_le _) roots r

/-- Whatever is asked for has been sent by a fetch of the plan. -/
theorem execute_sends (st : Store σ) (s : Schema) (entity : String) (p : FetchPlan)
    (roots : List Record) (r : Recorded σ) :
    ∃ asked : List RelatedQuery,
      (execute st.recorded s entity p roots r).2.trips = r.trips ++ asked.map .related ∧
      ∀ q ∈ asked, ∃ e ∈ p.entries, ∃ owners qs, Sends s entity owners e qs ∧ q ∈ qs := by
  obtain ⟨asked, trips, sends, -⟩ := accounts_execute p roots r
  refine ⟨asked.flatten, trips, fun q hq => ?_⟩
  obtain ⟨qs, hqs, hq⟩ := List.mem_flatten.mp hq
  obtain ⟨e, he, sends⟩ := exists_of_forall₂ sends hqs
  exact ⟨e, p.perm_carriedOut.mem_iff.mp he, _, qs, sends, hq⟩

/-- **The round trips of a plan are those of its fetches**, one after the other. A join fetch makes
at most one, a query fetch at most one for each record that stands at its path; all are for keys
that are not null, and no two of which are the same. -/
theorem execute_round_trips (st : Store σ) (s : Schema) (entity : String) (p : FetchPlan)
    (roots : List Record) (r : Recorded σ) :
    let run := execute st.recorded s entity p roots r
    let standing (path : String) := Record.ownersAt (Path.steps path) run.1.2
    (∃ (fetches : List (String × Fetch)) (asked : List (List RelatedQuery)),
      fetches.Perm p.entries ∧ run.2.trips = r.trips ++ asked.flatten.map .related ∧
      List.Forall₂ (fun e qs => Sends s entity (standing e.1) e qs ∧
        qs.length ≤ (if e.2.isQuery then (standing e.1).length else 1) ∧
        ∀ q ∈ qs, q.keys ≠ [] ∧ (∀ k ∈ q.keys, k.isNull = false) ∧ (q.keys.map Value.key).Nodup ∧
          (e.2.isQuery → ∃ key, q.keys = [key])) fetches asked) ∧
    (p.isEmpty ∨ roots = [] → run.2.trips = r.trips) := by
  intro run standing
  constructor
  · obtain ⟨asked, trips, sends, -⟩ := accounts_execute p roots r
    refine ⟨p.carriedOut, asked, p.perm_carriedOut, trips, sends.imp fun e qs h => ?_⟩
    exact ⟨h, h.length_le, fun q hq => h.keys hq⟩
  · intro idle
    have nothing : (p.isEmpty || roots.isEmpty) = true := by simpa using idle
    show ((if p.isEmpty || roots.isEmpty then pure ()
      else p.paths.forM (fetchesAt st.recorded s entity p) : Loading (Recorded σ) Unit)
      roots r).2.trips = _
    rw [if_pos nothing]
    rfl

open Dataset.Library in
/-- The books of two authors and the author of each book take two round trips. -/
example : (execute Dataset.store.recorded schema "Author"
    ⟨[("", .joinCollection "books"), ("books", .join "author")]⟩
    [author (.int 1), author (.int 2)] ⟨books, [], none⟩).2.trips.length = 2 := by cbv

end Loading

end EntityQuery
