import EntityQuery.Proofs.Dataset.Counting
import EntityQuery.Proofs.Dataset.Ranges
import EntityQuery.Proofs.Dataset.Sharing
import EntityQuery.Proofs.Path.Canonical

/-!
# The left-join product

**The bindings of a record are the ways to give each join one of the children of its parent's row,
and nothing where it has no parent's row or this has no children** (`Given`, `expand_is_product`). A
binding comes up as often as its rows come up among the children, multiplied over the joins
(`count_expandFrom`); and what the bindings give to some of the joins, together with their parents,
are the bindings that there are under these joins alone (`mem_expand_alone_iff`).

To speak of some joins alone they are numbered by their positions (`alone`), and bindings go both
ways: `restrict` forgets what the other joins have been given, and `spread` leaves them empty.
Multiplicities are counted along the joins, where at each step a single option contributes
(`sum_map_eq_count_mul`).
-/

namespace EntityQuery.Evaluator

variable {d : Dataset} {s : Schema} {q : Selection} {ev : Evaluator} {root : Record} {b : Binding}
  {j : JoinNode} {joins kept : Joins}

/-! ## What each join is given -/

/-- What a join has been given: one of the children of its parent's row, or nothing if that row is
not a record, or has no children. -/
inductive Given (ev : Evaluator) (root : Record) (b : Binding) (j : JoinNode) : Prop
  | child {parent : Record} {r : Row} (above : row root b j.parent = some (.entity parent))
      (child : r ∈ ev.children parent j.id) (place : b[j.id]? = some (some r))
  | nothing (childless : ∀ parent, row root b j.parent = some (.entity parent) →
      ev.children parent j.id = []) (place : b[j.id]? = some none)

theorem reach_eq {parent : Record} (above : row root b j.parent = some (.entity parent)) :
    ev.reach root j b = ev.children parent j.id := by
  rw [reach, above]

theorem mem_reach_iff {r : Row} : r ∈ ev.reach root j b ↔
    ∃ parent, row root b j.parent = some (.entity parent) ∧ r ∈ ev.children parent j.id := by
  unfold reach
  split
  · next parent above => simp [above]
  · next other =>
    refine iff_of_false List.not_mem_nil ?_
    rintro ⟨parent, above, -⟩
    exact other parent above

theorem reach_eq_nil_iff : ev.reach root j b = [] ↔
    ∀ parent, row root b j.parent = some (.entity parent) → ev.children parent j.id = [] := by
  simp only [List.eq_nil_iff_forall_not_mem, mem_reach_iff, not_exists, not_and]
  exact forall_comm.trans (forall_congr' fun _ => forall_comm)

theorem fits_iff_given : Fits ev root b j ↔ Given ev root b j := by
  unfold Fits options
  constructor
  · rintro ⟨o, ho, place⟩
    split at ho
    · next none =>
      rw [List.mem_singleton.mp ho] at place
      exact .nothing (reach_eq_nil_iff.mp (List.isEmpty_iff.mp none)) place
    · obtain ⟨r, hr, rfl⟩ := List.mem_map.mp ho
      obtain ⟨parent, above, child⟩ := mem_reach_iff.mp hr
      exact .child above child place
  · rintro (⟨above, child, place⟩ | ⟨childless, place⟩)
    · refine ⟨_, ?_, place⟩
      have some_ : ev.reach root j b ≠ [] := List.ne_nil_of_mem (reach_eq above ▸ child)
      rw [if_neg (by simpa using some_), reach_eq above]
      exact List.mem_map_of_mem child
    · refine ⟨none, ?_, place⟩
      rw [if_pos (by simpa using reach_eq_nil_iff.mpr childless)]
      exact List.mem_singleton.mpr rfl

/-! ## How often -/

/-- A sum to which a single item contributes, each time it comes up. -/
theorem sum_map_eq_count_mul {α : Type} [BEq α] [LawfulBEq α] {l : List α} {f : α → Nat} {a : α}
    (others : ∀ x, x ≠ a → f x = 0) : (l.map f).sum = l.count a * f a := by
  induction l with
  | nil => simp
  | cons x l ih =>
    rw [List.map_cons, List.sum_cons, ih, List.count_cons]
    by_cases h : x = a
    · rw [if_pos (beq_iff_eq.mpr h), h, Nat.add_one_mul, Nat.add_comm]
    · rw [if_neg (by simpa using h), others x h, Nat.zero_add, Nat.add_zero]

section

open Classical

/-- How often a join leads to what it has been given: as often as the row is among the children, or
once if there are none. -/
noncomputable def times (ev : Evaluator) (root : Record) (b : Binding) (j : JoinNode) : Nat :=
  match b[j.id]?.join with
  | some r => (ev.reach root j b).count r
  | none => if ev.reach root j b = [] then 1 else 0

theorem count_options : (ev.options root j b).count (b[j.id]?.join) = ev.times root b j := by
  unfold options times
  cases h : ev.reach root j b with
  | nil => cases b[j.id]?.join <;> simp
  | cons r rs =>
    rw [if_neg (by simp)]
    cases b[j.id]?.join with
    | none => simp [List.count_eq_zero]
    | some r' => exact List.count_map_of_injective _ _ (Option.some_injective Row) r'

variable {js : List JoinNode}

/-- Following the joins, a binding comes up as often as each of them leads to what it gives. -/
theorem count_expandFrom (inTurn : InTurn js) {b b' : Binding}
    (fresh : ∀ j ∈ js, b[j.id]? = some none) (length : b'.length = b.length)
    (same : ∀ i, (∀ j ∈ js, j.id ≠ i) → b'[i]? = b[i]?) :
    (ev.expandFrom root js b).count b' = (js.map (ev.times root b')).prod := by
  induction js generalizing b with
  | nil =>
    have : b' = b := List.ext_getElem? fun i => same i (by simp)
    simp [expandFrom, this]
  | cons j js ih =>
    obtain ⟨freshHere, fresh⟩ := List.forall_mem_cons.mp fresh
    have ids {k : JoinNode} (hk : k ∈ js) : j.id ≠ k.id :=
      (List.rel_of_pairwise_cons inTurn.turns hk).1
    obtain ⟨given, place⟩ : ∃ given, b'[j.id]? = some given := by
      have bound := (List.getElem?_eq_some_iff.mp freshHere).1
      exact ⟨_, List.getElem?_eq_getElem (length ▸ bound)⟩
    -- The binding comes up where this join is given what it gives, and nowhere else.
    have elsewhere (o : Option Row) (other : o ≠ given) :
        (ev.expandFrom root js (assign j.id b o)).count b' = 0 := by
      refine List.count_eq_zero.mpr fun hc => other ?_
      have kept : b'[j.id]? = (assign j.id b o)[j.id]? :=
        eq_of_mem_expandFrom (g := (·[j.id]?))
          (fun k hk b o => getElem?_assign_of_ne (ids hk).symm b o) hc
      rw [place, getElem?_assign_self freshHere] at kept
      exact (Option.some.inj kept).symm
    have here : (ev.expandFrom root js (assign j.id b given)).count b' =
        (js.map (ev.times root b')).prod := by
      refine ih inTurn.of_cons (fun k hk => ?_) ?_ fun i hi => ?_
      · rw [getElem?_assign_of_ne (ids hk), fresh k hk]
      · rw [length, length_assign]
      · by_cases h : j.id = i
        · rw [← h, place, getElem?_assign_self freshHere]
        · rw [getElem?_assign_of_ne h]
          exact same i (List.forall_mem_cons.mpr ⟨h, hi⟩)
    calc (ev.expandFrom root (j :: js) b).count b'
      _ = ((ev.options root j b').map fun o =>
            (ev.expandFrom root js (assign j.id b o)).count b').sum := by
        rw [expandFrom, extendAlong_eq, ← options_of_same inTurn same, List.flatMap_map,
          List.count_flatMap]
        rfl
      _ = (ev.options root j b').count given * (js.map (ev.times root b')).prod := by
        rw [sum_map_eq_count_mul elsewhere, here]
      _ = ev.times root b' j * (js.map (ev.times root b')).prod := by
        rw [← count_options, place]
        rfl
      _ = ((j :: js).map (ev.times root b')).prod := by
        rw [List.map_cons, List.prod_cons]

end

/-! ## Some of the joins alone -/

/-- The position of the join of a number. -/
def position (kept : Joins) (id : Nat) : Nat := (kept.map (·.id)).idxOf id

/-- These joins by themselves, numbered by their positions. -/
def alone (kept : Joins) : Joins := kept.map (JoinNode.renumber (position kept))

/-- What a binding gives to these joins. -/
def restrict (kept : Joins) (b : Binding) : Binding := kept.map fun j => b[j.id]?.join

section

variable (inTurn : InTurn kept)

include inTurn

theorem position_id {n : Nat} (hj : kept[n]? = some j) : position kept j.id = n := by
  have ids : (kept.map (·.id)).Nodup := List.pairwise_map.mpr (inTurn.turns.imp And.left)
  obtain ⟨hn, rfl⟩ := List.getElem?_eq_some_iff.mp hj
  have found := ids.idxOf_getElem n (by rwa [List.length_map])
  rwa [List.getElem_map] at found

theorem getElem?_position (hj : j ∈ kept) : kept[position kept j.id]? = some j := by
  obtain ⟨n, hn⟩ := List.mem_iff_getElem?.mp hj
  rwa [position_id inTurn hn]

theorem getElem?_alone (hj : j ∈ kept) :
    (alone kept)[position kept j.id]? = some (j.renumber (position kept)) := by
  rw [alone, List.getElem?_map, getElem?_position inTurn hj, Option.map_some]

theorem getElem?_restrict (hj : j ∈ kept) (b : Binding) :
    (restrict kept b)[position kept j.id]? = some b[j.id]?.join := by
  rw [restrict, List.getElem?_map, getElem?_position inTurn hj, Option.map_some]

theorem InTurn.parent_before {i n : Nat} {k : JoinNode} (hj : kept[i]? = some j)
    (hk : kept[n]? = some k) (parent : j.parent = .join k.id) : n < i := by
  obtain ⟨hi, rfl⟩ := List.getElem?_eq_some_iff.mp hj
  obtain ⟨hn, rfl⟩ := List.getElem?_eq_some_iff.mp hk
  rcases Nat.lt_trichotomy n i with before | rfl | after
  · exact before
  · exact absurd parent (inTurn.proper _ (List.getElem_mem hi))
  · exact absurd parent (List.pairwise_iff_getElem.mp inTurn.turns i n hi hn after).2

variable (closed : ∀ j ∈ kept, ∀ p, j.parent = .join p → ∃ k ∈ kept, k.id = p)

include closed

theorem numbered_alone : (alone kept).Numbered where
  id i j' hj' := by
    rw [alone, List.getElem?_map] at hj'
    obtain ⟨j, hj, rfl⟩ := Option.map_eq_some_iff.mp hj'
    exact position_id inTurn hj
  earlier i j' n hj' parent := by
    rw [alone, List.getElem?_map] at hj'
    obtain ⟨j, hj, rfl⟩ := Option.map_eq_some_iff.mp hj'
    cases hp : j.parent with
    | root =>
      rw [JoinNode.renumber, hp] at parent
      cases parent
    | join p =>
      obtain ⟨k, hk, rfl⟩ := closed j (List.mem_of_getElem? hj) p hp
      rw [JoinNode.renumber, hp] at parent
      obtain rfl : position kept k.id = n := Source.join.inj parent
      exact inTurn.parent_before hj (getElem?_position inTurn hk) hp

theorem row_restrict (hj : j ∈ kept) (b : Binding) :
    row root (restrict kept b) (j.parent.renumber (position kept)) = row root b j.parent := by
  cases hp : j.parent with
  | root => rfl
  | join p =>
    obtain ⟨k, hk, rfl⟩ := closed j hj p hp
    show (restrict kept b)[position kept k.id]?.join = b[k.id]?.join
    rw [getElem?_restrict inTurn hk, Option.join_some]

section

variable (numbered : joins.Numbered) (within : ∀ j ∈ kept, j ∈ joins) {q q' : Selection}
  {ev ev' : Evaluator} (hev : Evaluator.of d s q = .ok ev) (hev' : Evaluator.of d s q' = .ok ev')
  (hq : q.joins = joins) (hq' : q'.joins = alone kept)

include numbered within hev hev' hq hq'

/-- By itself a join can be given what it can be given among the others. -/
theorem options_restrict (hj : j ∈ kept) (b : Binding) :
    ev'.options root (j.renumber (position kept)) (restrict kept b) = ev.options root j b := by
  have reached : ev'.reach root (j.renumber (position kept)) (restrict kept b) =
      ev.reach root j b := by
    have above : row root (restrict kept b) (j.renumber (position kept)).parent =
        row root b j.parent := row_restrict inTurn closed hj b
    have children (parent : Record) :
        ev'.children parent (position kept j.id) = ev.children parent j.id := by
      rw [children_of hev' (hq' ▸ getElem?_alone inTurn hj),
        children_of hev (hq ▸ numbered.getElem?_id (within j hj))]
      rfl
    unfold reach
    rw [above]
    split
    · exact children _
    · rfl
  rw [options, options, reached]

theorem fits_restrict_iff (hj : j ∈ kept) (length : b.length = joins.length) :
    Fits ev' root (restrict kept b) (j.renumber (position kept)) ↔ Fits ev root b j := by
  have bound := (List.getElem?_eq_some_iff.mp (numbered.getElem?_id (within j hj))).1
  have place : b[j.id]? = some b[j.id]?.join := getElem?_eq_some_join (length ▸ bound)
  have place' : (restrict kept b)[(j.renumber (position kept)).id]? = some b[j.id]?.join :=
    getElem?_restrict inTurn hj b
  unfold Fits
  rw [options_restrict inTurn closed numbered within hev hev' hq hq' hj, place', ← place]

end

end

/-! ## Which bindings there are -/

theorem getElem?_beside (numbered : joins.Numbered) (length : b.length = joins.length) {i : Nat}
    (hi : ∀ j ∈ joins, j.id ≠ i) : b[i]? = (blank joins)[i]? := by
  have beyond : joins.length ≤ i := by
    by_contra within
    have there := List.getElem?_eq_getElem (Nat.lt_of_not_le within)
    exact hi _ (List.mem_of_getElem? there) (numbered.id i _ there)
  rw [List.getElem?_eq_none (length ▸ beyond), blank, List.getElem?_eq_none]
  rwa [List.length_replicate]

/-- A binding of all the joins gives each of them something it can be given. -/
theorem mem_expand_iff_fits (hev : Evaluator.of d s q = .ok ev) (numbered : q.joins.Numbered) :
    b ∈ ev.expand root ↔ b.length = q.joins.length ∧ ∀ j ∈ q.joins, Fits ev root b j := by
  constructor
  · intro hb
    exact ⟨joins_of hev ▸ (expand?_eq hev numbered root).2 b hb,
      ((mem_expand_iff numbered hev rfl).mp hb).2⟩
  · rintro ⟨length, fits⟩
    exact (mem_expand_iff numbered hev rfl).mpr
      ⟨fun i hi => getElem?_beside numbered length hi, fits⟩

/-- The binding of all the joins that gives to these what they have by themselves. -/
def spread (joins kept : Joins) (a : Binding) : Binding :=
  joins.map fun j => a[position kept j.id]?.join

section

variable {keep : JoinNode → Bool} (numbered : joins.Numbered)

include numbered

theorem exists_parent_kept (parents : KeepsParents keep joins) (hj : j ∈ joins.filter keep)
    (p : Nat) (parent : j.parent = .join p) : ∃ k ∈ joins.filter keep, k.id = p := by
  obtain ⟨hj, kept⟩ := List.mem_filter.mp hj
  have there := numbered.getElem?_id hj
  have bound := (numbered.earlier _ j p there parent).trans (List.getElem?_eq_some_iff.mp there).1
  have hk := List.getElem?_eq_getElem bound
  have id := numbered.id p _ hk
  have mem := List.mem_of_getElem? hk
  refine ⟨joins[p], List.mem_filter.mpr ⟨mem, parents _ mem j hj kept ?_⟩, id⟩
  rw [parent, id]

theorem getElem?_spread (hj : j ∈ joins) (a : Binding) :
    (spread joins kept a)[j.id]? = some a[position kept j.id]?.join := by
  rw [spread, List.getElem?_map, numbered.getElem?_id hj, Option.map_some]

theorem restrict_spread (inTurn : InTurn kept) (within : ∀ j ∈ kept, j ∈ joins) {a : Binding}
    (length : a.length = kept.length) : restrict kept (spread joins kept a) = a := by
  refine List.ext_getElem? fun i => ?_
  rw [restrict, List.getElem?_map]
  cases hj : kept[i]? with
  | none =>
    rw [List.getElem?_eq_none (length ▸ List.getElem?_eq_none_iff.mp hj)]
    rfl
  | some j =>
    rw [Option.map_some, getElem?_spread numbered (within j (List.mem_of_getElem? hj)),
      position_id inTurn hj]
    exact (getElem?_eq_some_join (length ▸ (List.getElem?_eq_some_iff.mp hj).1)).symm

/-- Joins that are not kept are left empty. -/
theorem getElem?_spread_of_not_kept {a : Binding} (length : a.length = kept.length) {i : Nat}
    (h : ∀ k ∈ kept, k.id ≠ i) : (spread joins kept a)[i]? = (blank joins)[i]? := by
  rw [spread, List.getElem?_map, blank, List.getElem?_replicate]
  cases hi : joins[i]? with
  | none => rw [if_neg (Nat.not_lt.mpr (List.getElem?_eq_none_iff.mp hi))]; rfl
  | some j =>
    have absent : i ∉ kept.map (·.id) := by
      rw [List.mem_map]
      rintro ⟨k, hk, id⟩
      exact h k hk id
    rw [if_pos (List.getElem?_eq_some_iff.mp hi).1, Option.map_some, numbered.id i j hi, position,
      List.idxOf_eq_length absent, List.length_map, ← length, List.getElem?_eq_none (Nat.le_refl _)]
    rfl

end

/-- What the bindings give to joins that come with their parents are the bindings under these joins
alone. -/
theorem mem_expand_alone_iff {keep : JoinNode → Bool} {q' : Selection} {ev' : Evaluator}
    (hev : Evaluator.of d s q = .ok ev) (numbered : q.joins.Numbered)
    (parents : KeepsParents keep q.joins) (hev' : Evaluator.of d s q' = .ok ev')
    (hq' : q'.joins = alone (q.joins.filter keep)) {a : Binding} :
    a ∈ ev'.expand root ↔ ∃ b ∈ ev.expand root, restrict (q.joins.filter keep) b = a := by
  have inTurn := (inTurn_of_numbered numbered).filter keep
  have closed := fun j (hj : j ∈ q.joins.filter keep) => exists_parent_kept numbered parents hj
  have within := fun j (hj : j ∈ q.joins.filter keep) => List.mem_of_mem_filter hj
  have numbered' : q'.joins.Numbered := hq' ▸ numbered_alone inTurn closed
  have fits_iff {b : Binding} {j : JoinNode} (hj : j ∈ q.joins.filter keep)
      (length : b.length = q.joins.length) :
      Fits ev' root (restrict (q.joins.filter keep) b)
        (j.renumber (position (q.joins.filter keep))) ↔ Fits ev root b j :=
    fits_restrict_iff inTurn closed numbered within hev hev' rfl hq' hj length
  rw [mem_expand_iff_fits hev' numbered', hq', alone, List.length_map, List.forall_mem_map]
  constructor
  · rintro ⟨length, fits⟩
    have same := restrict_spread numbered inTurn within length
    have full : (spread q.joins (q.joins.filter keep) a).length = q.joins.length :=
      List.length_map ..
    have others (i : Nat) (hi : ∀ k ∈ q.joins, keep k = true → k.id ≠ i) :
        (spread q.joins (q.joins.filter keep) a)[i]? = (blank q.joins)[i]? :=
      getElem?_spread_of_not_kept numbered length fun k hk =>
        hi k (within k hk) (List.mem_filter.mp hk).2
    have given (k : JoinNode) (hk : k ∈ q.joins) (kept : keep k = true) :
        Fits ev root (spread q.joins (q.joins.filter keep) a) k := by
      have there : k ∈ q.joins.filter keep := List.mem_filter.mpr ⟨hk, kept⟩
      refine (fits_iff there full).mp ?_
      rw [same]
      exact fits k there
    obtain ⟨b, hb, rows⟩ := exists_completion numbered hev rfl parents others given
    refine ⟨b, hb, Eq.trans (List.map_congr_left fun j hj => ?_) same⟩
    obtain ⟨hj, kept⟩ := List.mem_filter.mp hj
    refine rows (.join j.id) fun k hk id => ?_
    have at_ := numbered.getElem?_id hj
    rw [Source.join.inj id, numbered.getElem?_id hk] at at_
    cases at_
    exact kept
  · rintro ⟨b, hb, rfl⟩
    obtain ⟨length, fits⟩ := (mem_expand_iff_fits hev numbered).mp hb
    exact ⟨List.length_map .., fun j hj => (fits_iff hj length).mpr (fits j (within j hj))⟩

theorem succeeds_of_iff : Succeeds (Evaluator.of d s q) ↔
    ∀ j ∈ q.joins, Succeeds (JoinPlan.of s j) := by
  rw [← succeeds_mapM_iff]
  exact succeeds_bind_of_forall fun plans _ => succeeds_pure _

open Classical in
/-- **The bindings of a record are the left-join product of what the joins lead to.** They are found
without fail; they are those that give each join one of the children of its parent's row, or nothing
where there is no such child; each of them comes up as often as its rows among the children, all
joins multiplied; there is at least one; and for joins that come with their parents, what the
bindings give to them are the bindings under these joins alone. -/
theorem expand_is_product (hev : Evaluator.of d s q = .ok ev) (numbered : q.joins.Numbered)
    (root : Record) :
    ev.expand? root = some (ev.expand root) ∧
    (∀ b, b ∈ ev.expand root ↔ b.length = q.joins.length ∧ ∀ j ∈ q.joins, Given ev root b j) ∧
    (∀ b, b.length = q.joins.length →
      (ev.expand root).count b = (q.joins.map (ev.times root b)).prod) ∧
    ev.expand root ≠ [] ∧
    ∀ keep, KeepsParents keep q.joins → (alone (q.joins.filter keep)).Numbered ∧
      ∃ ev', Evaluator.of d s { q with joins := alone (q.joins.filter keep) } = .ok ev' ∧
        ∀ a, a ∈ ev'.expand root ↔ ∃ b ∈ ev.expand root, restrict (q.joins.filter keep) b = a := by
  have inTurn := inTurn_of_numbered numbered
  have expanded : ev.expand root = ev.expandFrom root q.joins (blank q.joins) := by
    rw [expand_eq, joins_of hev]
    rfl
  refine ⟨(expand?_eq hev numbered root).1, fun b => ?_, fun b length => ?_, ?_,
    fun keep parents => ?_⟩
  · simp only [← fits_iff_given]
    exact mem_expand_iff_fits hev numbered
  · rw [expanded]
    refine count_expandFrom inTurn (fun j hj => getElem?_blank (numbered.getElem?_id hj)) ?_
      fun i hi => getElem?_beside numbered length hi
    rw [length, blank, List.length_replicate]
  · rw [expanded]
    exact expandFrom_ne_nil ev root q.joins (blank q.joins)
  · have closed := fun j (hj : j ∈ q.joins.filter keep) => exists_parent_kept numbered parents hj
    have plans : ∀ j ∈ q.joins, Succeeds (JoinPlan.of s j) := succeeds_of_iff.mp ⟨ev, hev⟩
    obtain ⟨ev', hev'⟩ : Succeeds
        (Evaluator.of d s { q with joins := alone (q.joins.filter keep) }) := by
      refine succeeds_of_iff.mpr (List.forall_mem_map.mpr fun j hj => ?_)
      exact plans j (List.mem_of_mem_filter hj)
    exact ⟨numbered_alone (inTurn.filter keep) closed, ev', hev',
      fun a => mem_expand_alone_iff hev numbered parents hev' rfl⟩

namespace Bookshelf

def writers : JoinNode := ⟨2, .join 0, "Book", "author", "books.author", .entity "Author"⟩

/-- The first author has a tag twice. -/
def retagged : Dataset := stock.addElement "author_tags" ⟨.int 1, .null, .text "a"⟩

/-- Authors with their books and their tags, and the authors of the books. -/
def shelf : Selection := ⟨"Author", [books, tags, writers], none, false, [], [], none, 0⟩

def shelfEvaluator : Evaluator :=
  ⟨retagged, [books, tags, writers],
    [.link "Book" (.foreignKey "author" "author_id"), .elements "author_tags",
      .link "Author" .identity]⟩

theorem evaluator_shelf : Evaluator.of retagged schema shelf = .ok shelfEvaluator := by rfl

theorem numbered_shelf : shelf.joins.Numbered where
  id
    | 0, _, rfl | 1, _, rfl | 2, _, rfl => rfl
  earlier
    | 2, _, _, rfl, rfl => by decide

def firstBook : Row := .entity (written (.int 1))

def tagA : Row := .element ⟨.int 1, .null, .text "a"⟩

def taggedBook : Binding := [some firstBook, some tagA, some (.entity writer)]

end Bookshelf

open Classical Bookshelf in
/-- A book comes up twice with the tag that is there twice, and without regard to the tags it comes
up with its author. -/
theorem expand_is_product_shelf :
    (shelfEvaluator.expand writer).count taggedBook = 2 ∧
      ∃ ev', Evaluator.of retagged schema { shelf with joins := alone [books, writers] } = .ok ev' ∧
        [some firstBook, some (.entity writer)] ∈ ev'.expand writer := by
  obtain ⟨-, -, count, -, parts⟩ := expand_is_product evaluator_shelf numbered_shelf writer
  have once : shelfEvaluator.times writer taggedBook books = 1 := by
    show List.count firstBook [firstBook, .entity (written (.int 2))] = 1
    simp [firstBook, written, Record.new]
  have twice : shelfEvaluator.times writer taggedBook tags = 2 := by
    show List.count tagA [tagA, .element ⟨.int 1, .null, .text "b"⟩, tagA] = 2
    simp [tagA]
  have back : shelfEvaluator.times writer taggedBook writers = 1 := by
    show List.count (Row.entity writer) [.entity writer] = 1
    simp
  have comesUp : (shelfEvaluator.expand writer).count taggedBook = 2 := by
    rw [count taggedBook rfl]
    show (List.map (shelfEvaluator.times writer taggedBook) [books, tags, writers]).prod = 2
    simp [once, twice, back]
  have parents : KeepsParents (·.id ≠ 1) shelf.joins := by
    unfold KeepsParents
    decide
  obtain ⟨-, ev', hev', same⟩ := parts (·.id ≠ 1) parents
  refine ⟨comesUp, ev', hev', (same _).mpr ⟨taggedBook, ?_, rfl⟩⟩
  exact List.count_pos_iff.mp (by omega)

end EntityQuery.Evaluator
