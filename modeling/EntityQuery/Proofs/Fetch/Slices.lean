import EntityQuery.Proofs.Dataset.Order
import EntityQuery.Proofs.Fetch.Spelling
import Mathlib.Data.List.Zip

/-!
# Slices

**A bounded fetch loads onto each owner a slice of its targets** (`bounded_fetch_slices`): put in
order by the sort keys and then by the identifiers, the targets from the first position to the last
one.

The slice is that of a list which is determined by what it is said to be: the targets of the owner,
each as often as the association leads to it, in order (`Lists`), and there is one such list
(`lists_iff`). The page that a query fetch asks for is a slice of it (`pageOf_eq_slice`), for every
owner at the path (`queried_slices`).
-/

namespace EntityQuery

/-! ## Positions -/

/-- The items from a first position to a last one or to the end, counted from one. -/
def slice {α : Type} (first : Nat) (last : Option Nat) (l : List α) : List α :=
  ((l.zipIdx 1).filter fun p => first ≤ p.2 ∧ last.all (p.2 ≤ ·)).map Prod.fst

theorem pageOf_map {α β : Type} (f : α → β) (l : List α) (offset : Nat) (limit : Option Nat) :
    (pageOf l offset limit).map f = pageOf (l.map f) offset limit := by
  cases limit <;> simp [pageOf]

/-- A page is a slice. -/
theorem pageOf_eq_slice {α : Type} {first offset : Nat} {last limit : Option Nat}
    (h : Fetch.Spans first last offset limit) (l : List α) :
    pageOf l offset limit = slice first last l := by
  obtain ⟨rfl, rfl, _⟩ := h
  unfold slice
  -- The items that are left start at position `k + 1`.
  suffices rest : ∀ k, pageOf l (offset - k) (limit.map (· - (k - offset))) =
      ((l.zipIdx (k + 1)).filter fun p =>
        offset + 1 ≤ p.2 ∧ (limit.map (offset + ·)).all (p.2 ≤ ·)).map Prod.fst by
    have whole := rest 0
    rw [Nat.zero_sub, Nat.sub_zero] at whole
    simp only [Nat.sub_zero, Option.map_id'] at whole
    exact whole
  induction l with
  | nil => cases limit <;> simp [pageOf]
  | cons a l ih =>
    intro k
    have ih := ih (k + 1)
    rw [List.zipIdx_cons, List.filter_cons]
    by_cases before : k < offset
    · rw [if_neg (by simp; omega), ← ih]
      have skip : offset - k = offset - (k + 1) + 1 := by omega
      have whole : k - offset = 0 := by omega
      have whole' : k + 1 - offset = 0 := by omega
      cases limit <;> simp [pageOf, skip, whole, whole']
    · have start : offset - k = 0 := by omega
      have start' : offset - (k + 1) = 0 := by omega
      rw [start'] at ih
      rw [start]
      cases limit with
      | none =>
        rw [if_pos (by simp; omega), List.map_cons, ← ih]
        rfl
      | some n =>
        by_cases within : k + 1 ≤ offset + n
        · have more : n - (k - offset) = n - (k + 1 - offset) + 1 := by omega
          rw [if_pos (by simp; omega), List.map_cons, ← ih]
          simp [pageOf, more]
        · have full : n - (k - offset) = 0 := by omega
          have full' : n - (k + 1 - offset) = 0 := by omega
          rw [if_neg (by simp; omega), ← ih]
          simp [pageOf, full, full']

/-! ## The listing of an owner -/

namespace Dataset

variable {d : Dataset} {s : Schema} {owner attr : String} {r : Association} {l : Link}
  {order : List OrderKey} {type : ScalarType}

/-- The records are the targets of an owner, each as often as the association leads to it, in
order. -/
def Lists (d : Dataset) (target attr : String) (l : Link) (order : List OrderKey) (o : Record)
    (rs : List Record) : Prop :=
  rs.Perm (d.targetsOf target attr o l) ∧ rs.Pairwise (Record.InOrder · · order)

/-- What is related to a key, in order. -/
def listing (d : Dataset) (target : String) (key : String) (l : Link) (order : List OrderKey) :
    List Related :=
  stableSort (fun a b => compareRelated order a b = .lt) (d.relatedTo target [key] l)

theorem fetchRelated_page (known : Succeeds (s.entity r.target)) (offset : Nat)
    (limit : Option Nat) (key : Value) :
    d.fetchRelated s (Loading.page owner attr r l order offset limit key) =
      .ok (pageOf (d.listing r.target key.key l order) offset limit) := by
  obtain ⟨target, htarget⟩ := known
  simp only [fetchRelated, Loading.page, htarget, ok_bind]
  rfl

section

variable (filled : d.Filled) (notFloat : type ≠ .float)
  (ids : ∀ r' ∈ d.rows r.target, r'.id.type? = some type)
  (fields : ∀ key ∈ order, Record.Typed (d.rows r.target) key.attr)

include notFloat ids fields

theorem pairwise_listing (key : String) :
    ((d.listing r.target key l order).map (·.record)).Pairwise (Record.InOrder · · order) := by
  have byRecord : Orders (fun x : Related => x.record ∈ d.rows r.target)
      fun a b => compareRecords a.record b.record order :=
    (Record.orders_compareRecords notFloat ids fields).on (fun x : Related => x.record)
      fun _ h => h
  have byOwner : Orders (fun x : Related => x.record ∈ d.rows r.target)
      fun a b => compare a.ownerKey.key b.ownerKey.key :=
    (Orders.of_transCmp : Orders (fun _ : String => True) compare).on
      (fun x : Related => x.ownerKey.key) fun _ _ => trivial
  have rows : ∀ x ∈ d.relatedTo r.target [key] l, x.record ∈ d.rows r.target :=
    fun x hx => (mem_relatedTo hx).1
  refine List.pairwise_map.mpr ?_
  refine (pairwise_stableSort (byRecord.next byOwner) rows).imp_of_mem ?_
  intro a b ha hb hab
  have ha := rows a ((stableSort_perm ..).mem_iff.mp ha)
  have hb := rows b ((stableSort_perm ..).mem_iff.mp hb)
  refine (Record.inOrder_iff notFloat ids fields ha hb).mpr ?_
  rcases Ordering.isLE_then_iff_or.mp hab with lt | ⟨eq, _⟩
  · rw [lt]
    rfl
  · rw [eq]
    rfl

include filled

/-- There is one way to list the targets of an owner. -/
theorem lists_iff (o : Record) (rs : List Record) :
    d.Lists r.target attr l order o rs ↔
      rs = (d.listing r.target (Loading.ownerKey attr l o).key l order).map (·.record) := by
  have exact := filled.exact r.target
  have targets := targetsOf_eq exact attr l o
  have perm : ((d.listing r.target (Loading.ownerKey attr l o).key l order).map (·.record)).Perm
      (d.targetsOf r.target attr o l) := by
    rw [targets]
    exact (stableSort_perm ..).map _
  have sorted := pairwise_listing (l := l) notFloat ids fields (Loading.ownerKey attr l o).key
  constructor
  · rintro ⟨permuted, ordered⟩
    refine (permuted.trans perm.symm).eq_of_pairwise ?_ ordered sorted
    intro a b ha hb hab hba
    -- Both are rows of the target, and no two rows have the same identifier.
    have row {r' : Record} (h : r' ∈ d.targetsOf r.target attr o l) : r' ∈ d.rows r.target := by
      rw [targets] at h
      obtain ⟨x, hx, rfl⟩ := List.mem_map.mp h
      exact (mem_relatedTo hx).1
    have ha := row (permuted.mem_iff.mp ha)
    have hb := row (perm.mem_iff.mp hb)
    have same := Record.id_eq_of_inOrder notFloat ids fields ha hb hab hba
    exact List.inj_on_of_nodup_map exact.nodup_keys ha hb (congrArg Value.key same)
  · rintro rfl
    exact ⟨perm, sorted⟩

/-! ## The fetch -/

/-- What a bounded fetch makes of an owner: it is left as it is if the association has been loaded,
carries nothing if its key is null, and the slice of the only list of its targets otherwise. -/
def Sliced (d : Dataset) (target attr : String) (l : Link) (order : List OrderKey) (first : Nat)
    (last : Option Nat) (o o' : Record) : Prop :=
  if o.isLoaded attr then o' = o
  else if (Loading.ownerKey attr l o).isNull then o' = o.setRelation attr (.many [])
  else
    ∃ full, (∀ rs, d.Lists target attr l order o rs ↔ rs = full) ∧
      o' = o.setRelation attr (.many (slice first last full))

variable (hr : s.association owner attr = .ok r) (hl : s.link owner attr = .ok l)
  {sorting : List SortKey} (horder : s.resolveOrder r.target sorting = .ok order)
  {first offset : Nat} {last limit : Option Nat} (spans : Fetch.Spans first last offset limit)

include hr hl horder spans

/-- A query fetch slices every owner at its path. -/
theorem queried_slices (path : String) (known : Succeeds (s.entity r.target))
    (roots : List Record) :
    ∃ roots', Loading.queried store s owner path attr offset limit sorting roots d =
        ((.ok (), roots'), d) ∧
      List.Forall₂ (d.Sliced r.target attr l order first last)
        (Record.ownersAt (Path.steps path) roots)
        (Record.ownersAt (Path.steps path) roots') := by
  let part (o : Record) : Option (Loaded Record) :=
    let key := Loading.ownerKey attr l o
    if store.isLoaded o attr then none
    else if key.isNull then some (.many [])
    else some (.many ((pageOf (d.listing r.target key.key l order) offset limit).map (·.record)))
  refine ⟨_, Loading.queried_eq_ok_iff.mpr ⟨r, hr, l, hl, order, horder, _,
    Loading.queriedAll_of_forall (f := part) ?_, rfl⟩, ?_⟩
  · intro o _
    refine Loading.queriedOne_eq_ok_iff.mpr ?_
    dsimp only [part]
    split
    · exact ⟨rfl, rfl⟩
    split
    · exact ⟨rfl, rfl⟩
    · exact ⟨_, congrArg (·, d) (fetchRelated_page known offset limit _), rfl⟩
  · rw [Record.ownersAt_attach (List.length_map ..), List.zipWith_map_right, List.zipWith_self,
      List.forall₂_map_right_iff]
    refine List.forall₂_same.mpr fun o _ => ?_
    have loaded : store.isLoaded o attr = o.isLoaded attr := rfl
    unfold Sliced
    dsimp only [part]
    rw [loaded]
    split
    · rfl
    split
    · rfl
    · refine ⟨_, fun rs => lists_iff filled notFloat ids fields o rs, ?_⟩
      rw [pageOf_map, pageOf_eq_slice spans]
      rfl

end

/-- Carrying out the plan of one query fetch of the records at hand is carrying out the fetch. -/
theorem execute_query {σ : Type} {st : Store σ} {e : Entity} {sorting : List SortKey}
    {offset : Nat} {limit : Option Nat} {roots roots' : List Record} {state state' : σ}
    (he : s.entity owner = .ok e)
    (done : Loading.queried st s owner "" attr offset limit sorting roots state =
      ((.ok (), roots'), state')) :
    Loading.execute st s owner ⟨[("", ⟨attr, .query offset limit sorting⟩)]⟩ roots state =
      if roots.isEmpty then ((.ok (), roots), state) else ((.ok (), roots'), state') := by
  generalize hp : FetchPlan.mk [("", ⟨attr, .query offset limit sorting⟩)] = p
  have start : Loading.execute st s owner p roots state =
      (if p.isEmpty || roots.isEmpty then pure ()
        else p.paths.forM (Loading.fetchesAt st s owner p)) roots state := rfl
  have entries : p.isEmpty = false := by rw [← hp]; rfl
  have paths : p.paths = [""] := by
    subst hp
    simp [FetchPlan.paths, Path.ordered, List.eraseDups_cons]
  have fetches : p.joinsAt "" ++ p.queriesAt "" = [⟨attr, .query offset limit sorting⟩] := by
    subst hp
    simp [FetchPlan.joinsAt, FetchPlan.queriesAt, FetchPlan.fetchesAt, FetchPlan.ofKind,
      Fetch.isQuery]
  have leads : s.entityAt owner "" = .ok owner := by
    rw [Schema.entityAt, he, ok_bind, Schema.name_of_entity he]
    rfl
  rw [start, entries, Bool.false_or, paths]
  split
  · rfl
  · refine Loading.forM_cons_eq_ok_iff.mpr ⟨roots', state', ?_, rfl⟩
    refine Loading.lift_bind_eq_ok.mpr ⟨owner, leads, ?_⟩
    rw [fetches]
    exact Loading.forM_cons_eq_ok_iff.mpr ⟨roots', state', done, rfl⟩

/-- **A bounded fetch loads slices.** Carrying out the plan that is read from the text of a bounded
fetch slices every record. -/
theorem bounded_fetch_slices {declarations : List EntityDeclaration}
    (declared : Schema.declare declarations = .ok s) (filled : d.Filled)
    (hr : s.association owner attr = .ok r) (hl : s.link owner attr = .ok l)
    {text : String} {first : Nat} {last : Option Nat} {sorting : List SortKey}
    (bounded : Fetch.IsBounded text attr first last sorting)
    (horder : s.resolveOrder r.target sorting = .ok order) (notFloat : type ≠ .float)
    (ids : ∀ r' ∈ d.rows r.target, r'.id.type? = some type)
    (fields : ∀ key ∈ order, Record.Typed (d.rows r.target) key.attr) :
    ∃ offset limit, Fetch.Spans first last offset limit ∧
      FetchPlan.parse text = .ok ⟨[("", ⟨attr, .query offset limit sorting⟩)]⟩ ∧
      ∀ roots, ∃ roots', Loading.execute store s owner
          ⟨[("", ⟨attr, .query offset limit sorting⟩)]⟩ roots d = ((.ok (), roots'), d) ∧
        List.Forall₂ (d.Sliced r.target attr l order first last) roots roots' := by
  obtain ⟨offset, limit, spans, read⟩ := FetchPlan.parse_of_isBounded bounded
  refine ⟨offset, limit, spans, read, fun roots => ?_⟩
  have known := (Schema.closed_of_declare declared).succeeds_target hr
  obtain ⟨roots', done, sliced⟩ := queried_slices filled notFloat ids fields hr hl horder spans
    "" known roots
  obtain ⟨a, ha, _⟩ := Schema.association_eq_ok_iff.mp hr
  obtain ⟨e, he, _⟩ := Schema.attributeOf_eq_ok_iff.mp ha
  refine ⟨roots', ?_, sliced⟩
  rw [execute_query he done]
  split
  · next none =>
    rw [List.isEmpty_iff.mp none] at sliced ⊢
    cases sliced
    rfl
  · rfl

open Library in
/-- All books of each author but the last, up to the last position there is. -/
theorem bounded_fetch_slices_library :
    ∃ offset limit, Fetch.Spans 2 (some 18446744073709551615) offset limit ∧
      FetchPlan.parse "books[2:18446744073709551615](id:desc)" =
        .ok ⟨[("", ⟨"books", .query offset limit [⟨"id", .descending⟩]⟩)]⟩ ∧
      ∀ roots, ∃ roots', Loading.execute store schema "Author"
          ⟨[("", ⟨"books", .query offset limit [⟨"id", .descending⟩]⟩)]⟩ roots books =
          ((.ok (), roots'), books) ∧
        List.Forall₂ (books.Sliced "Book" "books" kept [⟨"id", "id", .descending⟩] 2
          (some 18446744073709551615)) roots roots' := by
  have declared : Schema.declare entities = .ok schema := by rfl
  have filled : books.Filled := (((Filled.empty.insert _).insert _).insert _)
  have association : schema.association "Author" "books" =
      .ok ⟨.oneToMany, "Book", none, false, none, none⟩ := rfl
  have linked : schema.link "Author" "books" = .ok kept := rfl
  have bounded : Fetch.IsBounded "books[2:18446744073709551615](id:desc)" "books" 2
      (some 18446744073709551615) [⟨"id", .descending⟩] := by
    have two : Fetch.IsPosition (Decimal.text 2) 2 := Fetch.isPosition_text (by decide) (by decide)
    have last : Fetch.IsPosition (Decimal.text 18446744073709551615) 18446744073709551615 :=
      Fetch.isPosition_text (by decide) (by decide)
    have entry : Fetch.IsSortEntry "id:desc".toList ⟨"id", .descending⟩ := by
      refine ⟨[], [], [], [], "desc".toList, ?_, ?_, ?_, ?_⟩ <;>
        simp [Text.Blanks, Text.Bare] <;> decide
    have named : ("books" : String) ≠ "" ∧ ∀ c ∈ "books".toList, FetchPlan.isNameChar c = true :=
      ⟨by decide, List.all_eq_true.mp (by decide +kernel)⟩
    refine ⟨_, _, ?_, named, .span two last (by decide),
      .given (List.cons_ne_nil _ []) (.cons entry .nil) (by decide +kernel)⟩
    decide +kernel
  have resolved : schema.resolveOrder "Book" [⟨"id", .descending⟩] =
      .ok [⟨"id", "id", .descending⟩] := rfl
  have ids : ∀ r ∈ books.rows "Book", r.id.type? = some .integer := by decide +kernel
  have fields : ∀ key ∈ [(⟨"id", "id", .descending⟩ : OrderKey)],
      Record.Typed (books.rows "Book") key.attr := by
    refine List.forall_mem_singleton.mpr ⟨.integer, by decide, ?_⟩
    decide +kernel
  exact bounded_fetch_slices declared filled association linked bounded resolved (by decide) ids
    fields

end Dataset

end EntityQuery
