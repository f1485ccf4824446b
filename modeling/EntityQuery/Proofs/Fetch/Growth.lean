import EntityQuery.Proofs.Fetch.RoundTrips

/-!
# What loading leaves in place

**Loading only adds** (`execute_only_adds`). A fetch loads an association onto those records at its
path on which it has not been loaded before, so that nothing that stands anywhere is replaced
(`Grows`), and at each place only the associations are added that the plan names for the path of
this place (`Adds`). This is so for each fetch, also for one that fails after some of its owners
(`fetch_onlyAdds`), and hence for a whole plan, however it ends.

Both relations are preorders, so loadings in turn only add if each of them does (`OnlyAdds.bind`,
`OnlyAdds.forM`). The one argument about records is that of `adds_attach`: what is loaded at the end
of a path changes the records on the way to it in nothing but what lies behind them.
-/

namespace EntityQuery

theorem exists_getElem?_of_forall₂ {α β : Type} {R : α → β → Prop} {l : List α} {l' : List β}
    (h : List.Forall₂ R l l') {i : Nat} {a : α} (ha : l[i]? = some a) :
    ∃ b, l'[i]? = some b ∧ R a b := by
  induction h generalizing i with
  | nil => cases ha
  | cons hab _ ih =>
    cases i with
    | zero =>
      cases ha
      exact ⟨_, rfl, hab⟩
    | succ i => exact ih ha

namespace Loaded

variable {α : Type} {R : α → α → Prop}

theorem Alike.trans (h : ∀ a b c, R a b → R b c → R a c) {l l' l'' : Loaded α}
    (first : l.Alike R l') (second : l'.Alike R l'') : l.Alike R l'' := by
  cases first with
  | none => exact second
  | one hr =>
    cases second with
    | one hr' => exact .one (h _ _ _ hr hr')
  | @many rs rs' hrs =>
    cases second with
    | @many _ rs'' hrs' =>
      refine .many ?_
      induction hrs generalizing rs'' with
      | nil => exact hrs'
      | cons hab _ ih =>
        cases hrs' with
        | cons hbc rest => exact .cons (h _ _ _ hab hbc) (ih rest)

end Loaded

namespace Record

/-! ## Growing -/

/-- The row is the same; what has been loaded onto it is there in the same form, with the same rows
in the same order; and only these associations have been loaded besides. -/
structure Grows (gained : String → Prop) (r r' : Record) : Prop where
  row : SameRow r r'
  kept : ∀ attr l, r.relation? attr = some l →
    ∃ l', r'.relation? attr = some l' ∧ l.Alike SameRow l'
  added : ∀ attr, r.isLoaded attr = false → r'.isLoaded attr = true → gained attr

section

variable {gained gained' : String → Prop} {r r' r'' : Record}

theorem SameRow.trans (first : SameRow r r') (second : SameRow r' r'') : SameRow r r'' :=
  Eq.trans second first

theorem Grows.refl (gained : String → Prop) (r : Record) : Grows gained r r where
  row := .refl r
  kept _ l h := ⟨l, h, .refl SameRow.refl l⟩
  added attr unloaded loaded := by
    rw [unloaded] at loaded
    cases loaded

theorem Grows.trans (first : Grows gained r r') (second : Grows gained r' r'') :
    Grows gained r r'' where
  row := first.row.trans second.row
  kept attr l h := by
    obtain ⟨l', h', alike⟩ := first.kept attr l h
    obtain ⟨l'', h'', alike'⟩ := second.kept attr l' h'
    exact ⟨l'', h'', alike.trans (R := SameRow) (fun _ _ _ => SameRow.trans) alike'⟩
  added attr unloaded loaded := by
    cases between : r'.isLoaded attr with
    | false => exact second.added attr between loaded
    | true => exact first.added attr unloaded between

theorem Grows.mono (h : Grows gained r r') (more : ∀ attr, gained attr → gained' attr) :
    Grows gained' r r' :=
  ⟨h.row, h.kept, fun attr unloaded loaded => more attr (h.added attr unloaded loaded)⟩

end

/-- The roots keep their number, and whatever stands at a place below them grows, by associations
that are named for the path of the place. -/
structure Adds (named : List String → String → Prop) (roots roots' : List Record) : Prop where
  length : roots'.length = roots.length
  grows : ∀ i place r, standing? roots i place = some r →
    ∃ r', standing? roots' i place = some r' ∧ Grows (named (pathTo place)) r r'

section

variable {named named' : List String → String → Prop} {roots roots' roots'' : List Record}

theorem Adds.refl (named : List String → String → Prop) (roots : List Record) :
    Adds named roots roots :=
  ⟨rfl, fun _ _ r h => ⟨r, h, .refl _ r⟩⟩

theorem Adds.trans (first : Adds named roots roots') (second : Adds named roots' roots'') :
    Adds named roots roots'' where
  length := second.length.trans first.length
  grows i place r h := by
    obtain ⟨r', h', grows⟩ := first.grows i place r h
    obtain ⟨r'', h'', grows'⟩ := second.grows i place r' h'
    exact ⟨r'', h'', grows.trans grows'⟩

theorem Adds.mono (h : Adds named roots roots')
    (more : ∀ path attr, named path attr → named' path attr) : Adds named' roots roots' where
  length := h.length
  grows i place r standing := by
    obtain ⟨r', standing', grows⟩ := h.grows i place r standing
    exact ⟨r', standing', grows.mono (more _)⟩

end

/-! ## Loading an association along a path -/

section

variable {attr : String} {path : List String} {r r' : Record}

/-- The association has been loaded onto the record, unless it had been before. -/
def Gains (attr : String) (r r' : Record) : Prop :=
  r' = r ∨ r.isLoaded attr = false ∧ ∃ l, r' = r.setRelation attr l

theorem Gains.sameRow (h : Gains attr r r') : SameRow r r' := by
  rcases h with rfl | ⟨-, l, rfl⟩
  · exact .refl _
  · exact sameRow_setRelation r attr l

theorem Gains.relation?_of_loaded (h : Gains attr r r') {other : String}
    (loaded : other = attr → r.isLoaded attr = true) : r'.relation? other = r.relation? other := by
  rcases h with rfl | ⟨unloaded, l, rfl⟩
  · rfl
  · refine relation?_setRelation_of_ne r l fun same => ?_
    rw [loaded same] at unloaded
    cases unloaded

theorem Along.sameRow (along : Along (Gains attr) path r r') : SameRow r r' := by
  cases path with
  | nil => exact Gains.sameRow along
  | cons segment rest =>
    unfold Along at along
    split at along
    · rw [along]
      exact .refl r
    · obtain ⟨l', -, rfl⟩ := along
      exact sameRow_setRelation r segment l'

theorem Gains.grows (h : Gains attr r r') : Grows (· = attr) r r' where
  row := h.sameRow
  kept other l hl := by
    refine ⟨l, ?_, .refl SameRow.refl l⟩
    rw [h.relation?_of_loaded, hl]
    rintro rfl
    rw [isLoaded, hl, Option.isSome_some]
  added other unloaded loaded := by
    by_contra different
    rw [isLoaded, h.relation?_of_loaded fun same => absurd same different] at loaded
    exact absurd loaded (by rw [← isLoaded, unloaded]; decide)

/-- A record on the way to what changes keeps what has been loaded onto it and gains nothing. -/
theorem Along.grows_of_cons {segment : String} {rest : List String}
    (along : Along (Gains attr) (segment :: rest) r r') : Grows (fun _ => False) r r' := by
  have row := along.sameRow
  unfold Along at along
  split at along
  · rw [along]
    exact .refl _ r
  · next l hl =>
    obtain ⟨l', alike, rfl⟩ := along
    refine ⟨row, fun other l₁ hl₁ => ?_, fun other unloaded loaded => ?_⟩
    · by_cases same : other = segment
      · subst same
        cases hl.symm.trans hl₁
        exact ⟨l', relation?_setRelation_self .., alike.imp fun _ _ => Along.sameRow⟩
      · rw [relation?_setRelation_of_ne r l' same]
        exact ⟨l₁, hl₁, .refl SameRow.refl l₁⟩
    · by_cases same : other = segment
      · subst same
        rw [isLoaded, hl] at unloaded
        cases unloaded
      · rw [isLoaded, relation?_setRelation_of_ne r l' same, ← isLoaded, unloaded] at loaded
        cases loaded

/-- Whatever stands at a place still stands there, and grows if the path leads to this place. -/
theorem Along.exists_member? (along : Along (Gains attr) path r r') {place : List (String × Nat)}
    {m : Record} (hm : member? place r = some m) :
    ∃ m', member? place r' = some m' ∧ Grows (fun a => a = attr ∧ pathTo place = path) m m' := by
  induction path generalizing place r r' with
  | nil =>
    cases place with
    | nil =>
      cases hm
      exact ⟨r', rfl, (Gains.grows along).mono fun a same => ⟨same, rfl⟩⟩
    | cons step place =>
      -- The way to the place goes along an association that had been loaded before.
      obtain ⟨other, i⟩ := step
      have loaded : r.isLoaded other = true := by
        by_contra unloaded
        rw [isLoaded, Option.not_isSome_iff_eq_none] at unloaded
        simp [member?, Record.related, unloaded] at hm
      have same : r'.related other = r.related other := by
        rw [Record.related, Gains.relation?_of_loaded along fun h => h ▸ loaded, ← Record.related]
      exact ⟨m, by rw [member?, same]; exact hm, .refl _ m⟩
  | cons segment rest ih =>
    cases place with
    | nil =>
      cases hm
      exact ⟨r', rfl, along.grows_of_cons.mono fun _ no => no.elim⟩
    | cons step place =>
      obtain ⟨other, i⟩ := step
      unfold Along at along
      split at along
      · rw [along]
        exact ⟨m, hm, .refl _ m⟩
      · next l hl =>
        obtain ⟨l', alike, rfl⟩ := along
        by_cases same : other = segment
        · subst same
          rw [member?, Record.related, hl] at hm
          obtain ⟨o, ho, hm⟩ := Option.bind_eq_some_iff.mp hm
          obtain ⟨o', ho', along⟩ := exists_getElem?_of_forall₂ alike.records ho
          obtain ⟨m', hm', grows⟩ := ih along hm
          refine ⟨m', ?_, grows.mono fun a named => ⟨named.1, congrArg (other :: ·) named.2⟩⟩
          rw [member?, Record.related, relation?_setRelation_self]
          exact Option.bind_eq_some_iff.mpr ⟨o', ho', hm'⟩
        · refine ⟨m, ?_, .refl _ m⟩
          rw [member?, Record.related, relation?_setRelation_of_ne r l' same]
          exact hm

/-- Nothing is to be loaded onto an owner on which the association has been loaded. -/
def Spares (attr : String) (owners : List Record) (assignments : Assignments) : Prop :=
  ∀ x ∈ owners.zip assignments, x.2.isSome → x.1.isLoaded attr = false

theorem spares_nil (attr : String) (owners : List Record) : Spares attr owners [] := by
  intro x hx
  rw [List.zip_nil_right] at hx
  cases hx

theorem serves_assignNext (attr : String) :
    Serves (Spares attr) (fun r => [r]) (Gains attr) (assignNext attr) := by
  intro r rest assignments spares
  cases assignments with
  | nil => exact ⟨.inl rfl, spares_nil attr rest⟩
  | cons a assignments =>
    have later : Spares attr rest assignments := fun x hx => spares x (List.mem_cons_of_mem _ hx)
    rw [run_assignNext_cons]
    cases a with
    | none => exact ⟨.inl rfl, later⟩
    | some l => exact ⟨.inr ⟨spares (r, some l) List.mem_cons_self rfl, l, rfl⟩, later⟩

/-- Loading an association onto the owners at a path where it has not been loaded only adds it. -/
theorem adds_attach {assignments : Assignments} {roots : List Record}
    (spares : Spares attr (ownersAt path roots) assignments) :
    Adds (fun above a => a = attr ∧ above = path) roots (attach path attr assignments roots) := by
  have along : List.Forall₂ (Along (Gains attr) path) roots (attach path attr assignments roots) :=
    forall₂_along_of_serves (serves_assignNext attr) spares
  refine ⟨along.length_eq.symm, fun i place m hm => ?_⟩
  obtain ⟨r, hr, hm⟩ := Option.bind_eq_some_iff.mp hm
  obtain ⟨r', hr', along⟩ := exists_getElem?_of_forall₂ along hr
  obtain ⟨m', hm', grows⟩ := along.exists_member? hm
  exact ⟨m', Option.bind_eq_some_iff.mpr ⟨r', hr', hm'⟩, grows⟩

end

end Record

namespace Loading

open Record (Adds Spares ownersAt)

variable {σ α : Type} {st : Store σ} {s : Schema} {entity owner path attr : String}
  {named : List String → String → Prop} {roots : List Record}

/-! ## Loadings that only add -/

/-- However the loading ends, it has only added what is named. -/
def OnlyAdds (named : List String → String → Prop) (roots : List Record) (x : Loading σ α) : Prop :=
  ∀ state, Adds named roots (x roots state).1.2

theorem OnlyAdds.lift_bind {β : Type} {y : Except Error β} {next : β → Loading σ α}
    (h : ∀ b, y = .ok b → OnlyAdds named roots (next b)) :
    OnlyAdds named roots ((liftM y : Loading σ β) >>= next) := by
  cases y with
  | error e => exact fun _ => .refl named roots
  | ok b => exact h b rfl

theorem OnlyAdds.get_bind {next : List Record → Loading σ α}
    (h : OnlyAdds named roots (next roots)) :
    OnlyAdds named roots ((get : Loading σ (List Record)) >>= next) := h

theorem OnlyAdds.bind {β : Type} {x : Loading σ β} {next : β → Loading σ α}
    (first : OnlyAdds named roots x) (second : ∀ b roots, OnlyAdds named roots (next b)) :
    OnlyAdds named roots (x >>= next) := by
  intro state
  have first := first state
  show Adds named roots ((ExceptT.bindCont next (x roots state).1.1 : StateT _ (StateM _) _)
    (x roots state).1.2 (x roots state).2).1.2
  generalize x roots state = done at first ⊢
  obtain ⟨⟨_ | b, roots₁⟩, state₁⟩ := done
  · exact first
  · exact first.trans (second b roots₁ state₁)

theorem OnlyAdds.forM {β : Type} {act : β → Loading σ Unit} {l : List β}
    (each : ∀ b ∈ l, ∀ roots, OnlyAdds named roots (act b)) (roots : List Record) :
    OnlyAdds named roots (l.forM act) := by
  induction l generalizing roots with
  | nil => exact fun _ => .refl named roots
  | cons b l ih =>
    obtain ⟨hb, each⟩ := List.forall_mem_cons.mp each
    exact (hb roots).bind fun _ => ih each

/-! ## Fetches -/

section

variable (standard : st.isLoaded = Record.isLoaded)

include standard

theorem joined_onlyAdds : OnlyAdds (fun above a => a = attr ∧ above = Path.steps path) roots
    (joined st s owner path attr) := by
  unfold joined
  refine .lift_bind fun r _ => .lift_bind fun l _ => .get_bind fun state => ?_
  have adds (related : List Related) : Adds (fun above a => a = attr ∧ above = Path.steps path)
      roots (Record.attach (Path.steps path) attr
        ((ownersAt (Path.steps path) roots).map (share st attr r l related)) roots) := by
    have given : List.Forall₂ (fun o a => a.isSome = true → o.isLoaded attr = false)
        (ownersAt (Path.steps path) roots)
        ((ownersAt (Path.steps path) roots).map (share st attr r l related)) := by
      refine List.forall₂_map_right_iff.mpr (List.forall₂_same.mpr fun o _ => ?_)
      unfold share
      rw [standard]
      cases o.isLoaded attr <;> simp
    exact Record.adds_attach fun x hx => List.forall₂_zip given hx
  dsimp only
  split
  · exact .refl _ roots
  split
  · exact adds []
  rw [ofTrip_bind]
  generalize st.fetchRelated s _ state = trip
  obtain ⟨_ | related, state'⟩ := trip
  · exact .refl _ roots
  · exact adds related

/-- Nothing is loaded onto an owner on which the association has been loaded, also if going through
the owners ends before the last of them. -/
theorem spares_queriedAll (query : Value → RelatedQuery) (l : Link) (owners : List Record)
    (state : σ) :
    Spares attr owners (queriedAll (queriedOne st s attr query l) owners state).1.1 := by
  induction owners generalizing state with
  | nil => exact Record.spares_nil attr []
  | cons o owners ih =>
    rw [queriedAll]
    show Spares attr (o :: owners)
      (StateT.bind (queriedOne st s attr query l o) _ state : (Record.Assignments × _) × σ).1.1
    delta StateT.bind
    cases answer : queriedOne st s attr query l o state with
    | mk outcome state₁ =>
      cases outcome with
      | error e => exact Record.spares_nil attr _
      | ok a =>
        intro x hx given
        rcases List.mem_cons.mp hx with rfl | hx
        · by_contra loaded
          have spared := (queriedOne_eq_ok_iff.mp answer)
          rw [standard] at spared
          dsimp only at spared
          rw [if_pos (by simpa using loaded)] at spared
          rw [← spared.1] at given
          cases given
        · exact ih state₁ x hx given

theorem queried_onlyAdds (offset : Nat) (limit : Option Nat) (sorting : List SortKey) :
    OnlyAdds (fun above a => a = attr ∧ above = Path.steps path) roots
      (queried st s owner path attr offset limit sorting) := by
  unfold queried
  refine .lift_bind fun r _ => .lift_bind fun l _ => .lift_bind fun order _ =>
    .get_bind fun state => ?_
  exact Record.adds_attach (spares_queriedAll standard (page owner attr r l order offset limit) l
    (ownersAt (Path.steps path) roots) state)

/-- A fetch only adds its association, at its path. -/
theorem fetch_onlyAdds (f : Fetch) :
    OnlyAdds (fun above a => a = f.name ∧ above = Path.steps path) roots
      (fetch st s owner path f) := by
  obtain ⟨name, kind⟩ := f
  cases kind with
  | join => exact joined_onlyAdds standard
  | query offset limit sorting => exact queried_onlyAdds standard offset limit sorting

/-- **Carrying out a plan only adds.** However it ends, the roots are as many as before and in the
same order; what stands at a place below them stands there still, as the same row, and what has been
loaded onto it is there in the same form with as many members in the same order; and only such
associations have been loaded onto it besides as the plan names under the path of the place. -/
theorem execute_only_adds (s : Schema) (entity : String) (p : FetchPlan) (roots : List Record)
    (state : σ) :
    let roots' := (execute st s entity p roots state).1.2
    roots'.length = roots.length ∧
    ∀ i place r, Record.standing? roots i place = some r →
      ∃ r', Record.standing? roots' i place = some r' ∧ r'.bare = r.bare ∧
        (∀ attr l, r.relation? attr = some l → ∃ l', r'.relation? attr = some l' ∧
          l.Alike (fun m m' => m'.bare = m.bare) l') ∧
        ∀ attr, r.isLoaded attr = false → r'.isLoaded attr = true →
          ∃ e ∈ p.entries, Path.steps e.1 = place.map Prod.fst ∧ e.2.name = attr := by
  have adds : OnlyAdds (fun above attr => ∃ e ∈ p.entries, Path.steps e.1 = above ∧
      e.2.name = attr) roots (execute st s entity p) := by
    unfold execute
    refine .get_bind ?_
    split
    · exact fun _ => .refl _ roots
    refine .forM (fun path _ roots => ?_) roots
    unfold fetchesAt
    refine .lift_bind fun owner _ => .forM (fun f hf roots state => ?_) roots
    refine (fetch_onlyAdds standard f state).mono ?_
    rintro above attr ⟨rfl, rfl⟩
    exact ⟨(path, f), mem_fetchesAt_iff.mp hf, rfl, rfl⟩
  obtain ⟨length, grows⟩ := adds state
  refine ⟨length, fun i place r standing => ?_⟩
  obtain ⟨r', standing', row, kept, added⟩ := grows i place r standing
  exact ⟨r', standing', row, kept, added⟩

end

open Dataset.Library

/-- Two authors, of whom the first has one of the books loaded. -/
def oneBook : List Record :=
  [(author (.int 1)).setRelation "books" (.many [book (.int 3) (.int 1)]), author (.int 2)]

/-- The books of a store that answers once. -/
def answeringOnce : Recorded Dataset := ⟨books, [], some (2, .store (.failure "gone"))⟩

/-- The books of the second author are loaded before the loading fails, and the one of the first
stays where it is. -/
theorem execute_only_adds_library :
    ∃ roots' r', execute Dataset.store.recorded schema "Author" booksAndBack oneBook
        answeringOnce = ((.error (.store (.failure "gone")), roots'), r') ∧
      roots'.length = 2 ∧
      (∃ b, Record.standing? roots' 0 [("books", 0)] = some b ∧
        b.bare = book (.int 3) (.int 1)) ∧
      ∃ a, Record.standing? roots' 1 [] = some a ∧ a.bare = author (.int 2) ∧
        a.isLoaded "books" = true := by
  have fails : (execute Dataset.store.recorded schema "Author" booksAndBack oneBook
      answeringOnce).1.1 = .error (.store (.failure "gone")) := by cbv
  have gains : (Record.standing? (execute Dataset.store.recorded schema "Author" booksAndBack
      oneBook answeringOnce).1.2 1 []).map (·.isLoaded "books") = some true := by cbv
  have standard : Dataset.store.recorded.isLoaded = Record.isLoaded := rfl
  obtain ⟨length, stays⟩ :=
    execute_only_adds standard schema "Author" booksAndBack oneBook answeringOnce
  obtain ⟨b, hb, bookRow, -⟩ := stays 0 [("books", 0)] (book (.int 3) (.int 1)) rfl
  obtain ⟨a, ha, authorRow, -⟩ := stays 1 [] (author (.int 2)) rfl
  rcases run : execute Dataset.store.recorded schema "Author" booksAndBack oneBook
    answeringOnce with ⟨⟨outcome, roots'⟩, r'⟩
  rw [run] at fails gains length hb ha
  cases fails
  rw [ha] at gains
  exact ⟨roots', r', rfl, length, ⟨b, hb, bookRow⟩, a, ha, authorRow, Option.some.inj gains⟩

end Loading

end EntityQuery
