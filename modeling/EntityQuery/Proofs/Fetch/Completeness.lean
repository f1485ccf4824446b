import EntityQuery.Proofs.Fetch.Stitching
import EntityQuery.Store.Recorded
import Mathlib

/-!
# Carrying out a plan

The paths of a plan are gone through from the shallow to the deep. What has been loaded at a path is
not touched by a fetch at a path as deep or deeper (`fetch_loads`), so that in the end **every fetch
of the plan has been carried out for all the owners that there are** (`execute_settles`); and where
it has, carrying out the plan once more asks for nothing (`fetch_idle`).

`Settled` says this of the fetches gone through so far: fetches at one path settle themselves and
leave settled what is as deep or less deep (`settled_of_fetches`), and so do all paths in turn
(`settled_of_paths`). The owners at a path are those that stand at its places (`mem_ownersAt_iff`),
which is how `execute_complete` names them: by a root and the steps from it.
-/

namespace EntityQuery

namespace Path

/-! ## The order of paths -/

theorem length_steps (path : String) : (steps path).length = depth path := by
  unfold steps depth
  split <;> rfl

/-- The comparison by which paths come before one another. -/
def order : String → String → Ordering :=
  compareLex (compareOn depth) (compareLex (compareOn String.utf8ByteSize) compare)

theorem before_iff {a b : String} : before a b ↔ (order a b).isLE := by
  unfold before order compareLex compareOn
  cases compare (depth a) (depth b) with
  | lt => simp
  | gt => simp
  | eq =>
    cases compare a.utf8ByteSize b.utf8ByteSize with
    | lt => simp
    | gt => simp
    | eq => simp [Ordering.isLE_iff_ne_gt, compare_le_iff_le]

instance : Std.TransCmp order := inferInstanceAs (Std.TransCmp (compareLex _ (compareLex _ _)))

theorem depth_le_of_before {a b : String} (h : before a b) : depth a ≤ depth b := by
  unfold before at h
  split at h
  · next hlt => exact Nat.le_of_lt (Nat.compare_eq_lt.mp hlt)
  · cases h
  · next heq => exact Nat.le_of_eq (Nat.compare_eq_eq.mp heq)

/-- A path comes after those that are shallower. -/
theorem pairwise_depth_ordered (paths : List String) :
    (ordered paths).Pairwise fun a b => depth a ≤ depth b := by
  refine (List.pairwise_mergeSort ?_ ?_ _).imp depth_le_of_before
  · intro a b c hab hbc
    exact before_iff.mpr (Std.TransCmp.isLE_trans (before_iff.mp hab) (before_iff.mp hbc))
  · intro a b
    have swap : order b a = (order a b).swap := Std.OrientedCmp.eq_swap
    rw [Bool.or_eq_true, before_iff, before_iff, swap]
    cases order a b <;> simp

theorem mem_ordered_iff {paths : List String} {path : String} :
    path ∈ ordered paths ↔ path ∈ paths := by
  unfold ordered
  rw [List.mem_mergeSort, List.mem_eraseDups]

end Path

namespace Loading

open Record (ownersAt Keeps)

variable {σ : Type} {st : Store σ} {s : Schema} {owner path : String} {f : Fetch}
  {roots roots' : List Record} {state state' : σ}

/-! ## One fetch -/

/-- Every owner at the path has the association loaded. -/
def LoadedAt (path attr : String) (roots : List Record) : Prop :=
  ∀ o ∈ ownersAt (Path.steps path) roots, o.isLoaded attr = true

theorem loadedAt_attach {attr : String} {assignments : Record.Assignments}
    (given : List.Forall₂ (fun o a => a = none → o.isLoaded attr = true)
      (ownersAt (Path.steps path) roots) assignments) :
    LoadedAt path attr (Record.attach (Path.steps path) attr assignments roots) := by
  unfold LoadedAt
  rw [Record.ownersAt_attach given.length_eq.symm]
  generalize ownersAt (Path.steps path) roots = owners at given
  induction given with
  | nil => simp
  | @cons o a owners assignments h _ ih =>
    rw [List.zipWith_cons_cons, List.forall_mem_cons]
    refine ⟨?_, ih⟩
    cases a with
    | none => exact h rfl
    | some l => exact Record.isLoaded_setRelation o attr l

theorem keeps_attach (path attr : String) (assignments : Record.Assignments)
    (roots : List Record) :
    List.Forall₂ (Keeps (Path.depth path)) roots
      (Record.attach (Path.steps path) attr assignments roots) := by
  rw [← Path.length_steps]
  exact Record.forall₂_keeps_attach ..

section

variable (standard : st.isLoaded = Record.isLoaded)

include standard

theorem joined_loads {attr : String}
    (h : joined st s owner path attr roots state = ((.ok (), roots'), state')) :
    LoadedAt path attr roots' ∧ List.Forall₂ (Keeps (Path.depth path)) roots roots' := by
  obtain ⟨r, _, l, _, h⟩ := joined_eq_ok_iff.mp h
  dsimp only at h
  split at h
  · next none =>
    obtain ⟨rfl, _⟩ := h
    refine ⟨fun o ho => ?_, List.forall₂_same.mpr fun r _ => Keeps.refl _ r⟩
    have pending := List.filter_eq_nil_iff.mp (List.isEmpty_iff.mp none) o ho
    rw [standard] at pending
    simpa using pending
  · obtain ⟨related, _, rfl⟩ := h
    refine ⟨loadedAt_attach ?_, keeps_attach ..⟩
    refine List.forall₂_map_right_iff.mpr (List.forall₂_same.mpr fun o _ => ?_)
    unfold share
    rw [standard]
    split
    · next loaded => exact fun _ => loaded
    · nofun

theorem queried_loads {attr : String} {offset : Nat} {limit : Option Nat}
    {sorting : List SortKey}
    (h : queried st s owner path attr offset limit sorting roots state =
      ((.ok (), roots'), state')) :
    LoadedAt path attr roots' ∧ List.Forall₂ (Keeps (Path.depth path)) roots roots' := by
  obtain ⟨r, _, l, _, order, _, assignments, done, rfl⟩ := queried_eq_ok_iff.mp h
  refine ⟨loadedAt_attach (forall₂_of_queriedAll ?_ done), keeps_attach ..⟩
  rintro o _ state state' h rfl
  have h := queriedOne_eq_ok_iff.mp h
  rw [standard] at h
  dsimp only at h
  split at h
  · next loaded => exact loaded
  split at h
  · cases h.1
  · obtain ⟨_, _, h⟩ := h
    cases h

/-- After a fetch that succeeds its association is loaded for every owner, and whatever lies as deep
or less deep is still loaded. -/
theorem fetch_loads (h : fetch st s owner path f roots state = ((.ok (), roots'), state')) :
    LoadedAt path f.name roots' ∧ List.Forall₂ (Keeps (Path.depth path)) roots roots' := by
  obtain ⟨name, kind⟩ := f
  cases kind with
  | join => exact joined_loads standard h
  | query => exact queried_loads standard h

end

/-! ## A fetch with nothing to do -/

/-- The loading leaves everything as it is. -/
def Idle (x : Loading σ Unit) (roots : List Record) : Prop :=
  ∀ state, x roots state = ((.ok (), roots), state)

/-- The loading has succeeded for some records. -/
def Ran (x : Loading σ Unit) : Prop :=
  ∃ roots state roots' state', x roots state = ((.ok (), roots'), state')

section

variable (standard : st.isLoaded = Record.isLoaded)

include standard

theorem joined_idle {attr : String} (ran : Ran (joined st s owner path attr))
    (loaded : LoadedAt path attr roots) : Idle (joined st s owner path attr) roots := by
  obtain ⟨_, _, _, _, h⟩ := ran
  obtain ⟨r, hr, l, hl, _⟩ := joined_eq_ok_iff.mp h
  intro state
  refine joined_eq_ok_iff.mpr ⟨r, hr, l, hl, ?_⟩
  have pending : (ownersAt (Path.steps path) roots).filter (!st.isLoaded · attr) = [] := by
    refine List.filter_eq_nil_iff.mpr fun o ho => ?_
    rw [standard, loaded o ho]
    simp
  dsimp only
  rw [pending]
  exact ⟨rfl, rfl⟩

theorem queried_idle {attr : String} {offset : Nat} {limit : Option Nat} {sorting : List SortKey}
    (ran : Ran (queried st s owner path attr offset limit sorting))
    (loaded : LoadedAt path attr roots) :
    Idle (queried st s owner path attr offset limit sorting) roots := by
  obtain ⟨_, _, _, _, h⟩ := ran
  obtain ⟨r, hr, l, hl, order, horder, _⟩ := queried_eq_ok_iff.mp h
  intro state
  refine queried_eq_ok_iff.mpr ⟨r, hr, l, hl, order, horder, _,
    queriedAll_of_forall (f := fun _ => none) ?_, ?_⟩
  · intro o ho
    refine queriedOne_eq_ok_iff.mpr ?_
    dsimp only
    rw [standard, if_pos (loaded o ho)]
    exact ⟨rfl, rfl⟩
  · exact Record.attach_of_forall_eq_none (by simp)

/-- A fetch that can succeed leaves everything as it is where its association is loaded already. -/
theorem fetch_idle (ran : Ran (fetch st s owner path f)) (loaded : LoadedAt path f.name roots) :
    Idle (fetch st s owner path f) roots := by
  obtain ⟨name, kind⟩ := f
  cases kind with
  | join => exact joined_idle standard ran loaded
  | query => exact queried_idle standard ran loaded

end

/-! ## Sequences of fetches -/

section

variable {α : Type} {act : α → Loading σ Unit} {l : List α}

theorem ran_of_forM (ran : Ran (l.forM act)) : ∀ a ∈ l, Ran (act a) := by
  induction l with
  | nil => nofun
  | cons a l ih =>
    obtain ⟨roots, state, roots', state', h⟩ := ran
    obtain ⟨roots₁, state₁, ha, hl⟩ := forM_cons_eq_ok_iff.mp h
    refine List.forall_mem_cons.mpr ⟨⟨roots, state, roots₁, state₁, ha⟩, ?_⟩
    exact ih ⟨roots₁, state₁, roots', state', hl⟩

theorem Idle.forM (h : ∀ a ∈ l, Idle (act a) roots) : Idle (l.forM act) roots := by
  intro state
  induction l with
  | nil => rfl
  | cons a l ih =>
    obtain ⟨ha, hl⟩ := List.forall_mem_cons.mp h
    exact forM_cons_eq_ok_iff.mpr ⟨roots, state, ha state, ih hl⟩

end

/-- Every one of the fetches has been carried out for all owners that there are. -/
def Settled (fetches : List (String × Fetch)) (roots : List Record) : Prop :=
  ∀ e ∈ fetches, LoadedAt e.1 e.2.name roots

theorem LoadedAt.of_keeps {attr : String} {depth : Nat} (loaded : LoadedAt path attr roots)
    (deep : Path.depth path ≤ depth) (keeps : List.Forall₂ (Keeps depth) roots roots') :
    LoadedAt path attr roots' := by
  have grown := Record.forall₂_keeps_ownersAt (Path.length_steps path ▸ deep) keeps
  unfold LoadedAt at loaded ⊢
  generalize ownersAt (Path.steps path) roots = owners at loaded grown
  generalize ownersAt (Path.steps path) roots' = owners' at grown
  induction grown with
  | nil => nofun
  | cons h _ ih =>
    obtain ⟨ho, howners⟩ := List.forall_mem_cons.mp loaded
    exact List.forall_mem_cons.mpr ⟨h attr ho, ih howners⟩

section

variable (standard : st.isLoaded = Record.isLoaded)

include standard

/-- Fetches at a path settle themselves and leave settled what is as deep or less deep. -/
theorem settled_of_fetches {fetches : List Fetch} {settled : List (String × Fetch)}
    (h : fetches.forM (fetch st s owner path) roots state = ((.ok (), roots'), state'))
    (shallow : ∀ e ∈ settled, Path.depth e.1 ≤ Path.depth path) (before : Settled settled roots) :
    Settled (fetches.map (path, ·) ++ settled) roots' := by
  induction fetches generalizing roots state settled with
  | nil =>
    cases h
    exact before
  | cons f fetches ih =>
    obtain ⟨roots₁, state₁, hf, h⟩ := forM_cons_eq_ok_iff.mp h
    obtain ⟨loaded, keeps⟩ := fetch_loads standard hf
    have deep : ∀ e ∈ (path, f) :: settled, Path.depth e.1 ≤ Path.depth path :=
      List.forall_mem_cons.mpr ⟨Nat.le_refl _, shallow⟩
    have now : Settled ((path, f) :: settled) roots₁ :=
      List.forall_mem_cons.mpr ⟨loaded, fun e he => (before e he).of_keeps (shallow e he) keeps⟩
    intro e he
    refine ih h deep now e ?_
    simp only [List.map_cons, List.cons_append, List.mem_cons, List.mem_append] at he ⊢
    tauto

/-- Going through paths from the shallow to the deep settles all their fetches. -/
theorem settled_of_paths {entity : String} {p : FetchPlan} {paths : List String}
    {settled : List (String × Fetch)}
    (sorted : paths.Pairwise fun a b => Path.depth a ≤ Path.depth b)
    (h : paths.forM (fetchesAt st s entity p) roots state = ((.ok (), roots'), state'))
    (shallow : ∀ e ∈ settled, ∀ path ∈ paths, Path.depth e.1 ≤ Path.depth path)
    (before : Settled settled roots) :
    Settled (paths.flatMap (fun path => (p.joinsAt path ++ p.queriesAt path).map (path, ·)) ++
      settled) roots' := by
  induction paths generalizing roots state settled with
  | nil =>
    cases h
    exact before
  | cons path paths ih =>
    obtain ⟨roots₁, state₁, hpath, h⟩ := forM_cons_eq_ok_iff.mp h
    obtain ⟨deeper, sorted⟩ := List.pairwise_cons.mp sorted
    obtain ⟨owner, _, hfetches⟩ := lift_bind_eq_ok.mp hpath
    have now := settled_of_fetches standard hfetches
      (fun e he => shallow e he path List.mem_cons_self) before
    intro e he
    -- What has just been settled is no deeper than the paths still to come.
    refine ih sorted h ?_ now e ?_
    · intro e he other hother
      rcases List.mem_append.mp he with he | he
      · obtain ⟨f, _, rfl⟩ := List.mem_map.mp he
        exact deeper other hother
      · exact shallow e he other (List.mem_cons_of_mem _ hother)
    · simp only [List.flatMap_cons, List.mem_append] at he ⊢
      tauto

end

/-! ## Plans -/

theorem mem_fetchesAt_iff {p : FetchPlan} :
    f ∈ p.joinsAt path ++ p.queriesAt path ↔ (path, f) ∈ p.entries := by
  have kinds (query : Bool) : f ∈ p.fetchesAt query path ↔
      (path, f) ∈ p.entries ∧ f.isQuery = query := by
    unfold FetchPlan.fetchesAt FetchPlan.ofKind
    simp only [List.mem_map, List.mem_filter, decide_eq_true_eq]
    constructor
    · rintro ⟨⟨_, _⟩, ⟨he, rfl⟩, rfl⟩
      exact he
    · intro he
      exact ⟨(path, f), ⟨he, rfl⟩, rfl⟩
  rw [List.mem_append, FetchPlan.joinsAt, FetchPlan.queriesAt, kinds, kinds]
  cases f.isQuery <;> simp

/-- A plan that has been carried out is settled, and carrying it out once more leaves everything as
it is. -/
theorem execute_settles {entity : String} {p : FetchPlan}
    (standard : st.isLoaded = Record.isLoaded)
    (h : execute st s entity p roots state = ((.ok (), roots'), state')) :
    Settled p.entries roots' ∧ Idle (execute st s entity p) roots' := by
  have start (roots : List Record) (state : σ) : execute st s entity p roots state =
      (if p.isEmpty || roots.isEmpty then pure () else p.paths.forM (fetchesAt st s entity p))
        roots state := rfl
  rw [start] at h
  split at h
  · next nothing =>
    cases h
    refine ⟨fun e he o ho => ?_, fun state => ?_⟩
    · rcases Bool.or_eq_true_iff.mp nothing with none | none
      · rw [List.isEmpty_iff.mp none] at he
        cases he
      · rw [List.isEmpty_iff.mp none, Record.ownersAt_nil] at ho
        cases ho
    · rw [start, if_pos nothing]
      rfl
  · have settled : Settled p.entries roots' := by
      intro e he
      refine settled_of_paths standard (Path.pairwise_depth_ordered _) h
        (List.forall_mem_nil _) (List.forall_mem_nil _) e ?_
      rw [List.append_nil, List.mem_flatMap]
      refine ⟨e.1, Path.mem_ordered_iff.mpr (List.mem_map.mpr ⟨e, he, rfl⟩), ?_⟩
      exact List.mem_map.mpr ⟨e.2, mem_fetchesAt_iff.mpr he, rfl⟩
    refine ⟨settled, fun state => ?_⟩
    rw [start]
    split
    · rfl
    -- Entities, associations and links were found the first time and do not depend on the records.
    refine Idle.forM (fun path hpath => ?_) state
    obtain ⟨_, _, _, _, hran⟩ := ran_of_forM ⟨roots, _, roots', _, h⟩ path hpath
    obtain ⟨owner, howner, hran⟩ := lift_bind_eq_ok.mp hran
    intro state
    refine lift_bind_eq_ok.mpr ⟨owner, howner, ?_⟩
    refine Idle.forM (fun f hf => ?_) state
    have hran := ran_of_forM ⟨_, _, _, _, hran⟩ f hf
    exact fetch_idle standard hran (settled (path, f) (mem_fetchesAt_iff.mp hf))

/-- **When a plan has been carried out, every fetch of it has been carried out for every record that
is reached along its path**, whatever loaded associations lead there; and carrying out the plan once
more makes no round trip and changes no record. -/
theorem execute_complete {entity : String} {p : FetchPlan}
    (standard : st.isLoaded = Record.isLoaded) {r r' : Recorded σ}
    (h : execute st.recorded s entity p roots r = ((.ok (), roots'), r')) :
    (∀ path f, (path, f) ∈ p.entries →
      ∀ i place o, Record.pathTo place = Path.steps path →
        Record.standing? roots' i place = some o → o.isLoaded f.name = true) ∧
    execute st.recorded s entity p roots' r' = ((.ok (), roots'), r') := by
  have recorded : st.recorded.isLoaded = Record.isLoaded := standard
  obtain ⟨settled, idle⟩ := execute_settles recorded h
  refine ⟨fun path f he i place o along standing => ?_, idle r'⟩
  exact settled (path, f) he o (Record.mem_ownersAt_iff.mpr ⟨i, place, along, standing⟩)

open Dataset.Library

/-- The books of each author, and the author of each of them. -/
def booksAndBack : FetchPlan := ⟨[("", .joinCollection "books"), ("books", .join "author")]⟩

/-- The books with their two authors. -/
def booksAndAuthors : Dataset := (books.insert (author (.int 1))).insert (author (.int 2))

/-- The first author has books loaded, the first of these has its author loaded, and that is the
first author again. -/
theorem execute_complete_library :
    ∃ roots' r', execute Dataset.store.recorded schema "Author" booksAndBack
        [author (.int 1), author (.int 2)] ⟨booksAndAuthors, [], none⟩ = ((.ok (), roots'), r') ∧
      (∃ a, Record.standing? roots' 0 [] = some a ∧ a.bare = author (.int 1) ∧
        a.isLoaded "books" = true) ∧
      (∃ b, Record.standing? roots' 0 [("books", 0)] = some b ∧ b.bare = book (.int 1) (.int 1) ∧
        b.isLoaded "author" = true) ∧
      (∃ a, Record.standing? roots' 0 [("books", 0), ("author", 0)] = some a ∧
        a.bare = author (.int 1)) ∧
      execute Dataset.store.recorded schema "Author" booksAndBack roots' r' =
        ((.ok (), roots'), r') := by
  have succeeds : (execute Dataset.store.recorded schema "Author" booksAndBack
      [author (.int 1), author (.int 2)] ⟨booksAndAuthors, [], none⟩).1.1 = .ok () := by cbv
  have first : (Record.standing? (execute Dataset.store.recorded schema "Author" booksAndBack
      [author (.int 1), author (.int 2)] ⟨booksAndAuthors, [], none⟩).1.2 0 []).map Record.bare =
        some (author (.int 1)) := by cbv
  have second : (Record.standing? (execute Dataset.store.recorded schema "Author" booksAndBack
      [author (.int 1), author (.int 2)] ⟨booksAndAuthors, [], none⟩).1.2 0 [("books", 0)]).map
        Record.bare = some (book (.int 1) (.int 1)) := by cbv
  have third : (Record.standing? (execute Dataset.store.recorded schema "Author" booksAndBack
      [author (.int 1), author (.int 2)] ⟨booksAndAuthors, [], none⟩).1.2 0
        [("books", 0), ("author", 0)]).map Record.bare = some (author (.int 1)) := by cbv
  rcases run : execute Dataset.store.recorded schema "Author" booksAndBack
    [author (.int 1), author (.int 2)] ⟨booksAndAuthors, [], none⟩ with ⟨⟨outcome, roots'⟩, r'⟩
  rw [run] at succeeds first second third
  cases succeeds
  obtain ⟨complete, again⟩ := execute_complete rfl run
  obtain ⟨a, ha, same⟩ := Option.map_eq_some_iff.mp first
  obtain ⟨b, hb, same'⟩ := Option.map_eq_some_iff.mp second
  refine ⟨roots', r', rfl, ⟨a, ha, same, ?_⟩, ⟨b, hb, same', ?_⟩,
    Option.map_eq_some_iff.mp third, again⟩
  · exact complete "" (.joinCollection "books") List.mem_cons_self 0 [] a rfl ha
  · exact complete "books" (.join "author") (List.mem_cons_of_mem _ List.mem_cons_self) 0
      [("books", 0)] b rfl hb

end Loading

end EntityQuery
