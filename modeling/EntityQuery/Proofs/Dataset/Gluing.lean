import EntityQuery.Proofs.Dataset.Sharing

/-!
# Gluing bindings

**Several bindings of a record can be put together into one that gives each join what they give it**
(`exists_glue`), as long as no two of them give different rows to a join of which both are asked. A
join that never leads to more than one row is given the same row by all bindings that give the same
to its parent (`row_eq_of_single`), so bindings can only contradict each other at joins that lead to
several.
-/

namespace EntityQuery.Evaluator

variable {d : Dataset} {s : Schema} {e : Entity} {root : Record} {joins : Joins}

/-- The binding that gives each join what the first of the bindings gives it that is asked of it. -/
def glue {ι : Type} (joins : Joins) (keep : ι → JoinNode → Bool) (pick : ι → Binding)
    (l : List ι) : Binding :=
  joins.map fun k => (l.find? (keep · k)).bind fun i => (pick i)[k.id]?.join

section

variable (sound : joins.Sound s e)

include sound

/-- What is the same at the joins that are kept is the same at the parent of such a join. -/
theorem row_parent_eq {keep : JoinNode → Bool} (parents : KeepsParents keep joins) {b c : Binding}
    {k : JoinNode} (hk : k ∈ joins) (kept : keep k = true)
    (same : ∀ j ∈ joins, keep j = true → j.id < k.id →
      row root b (.join j.id) = row root c (.join j.id)) :
    row root b k.parent = row root c k.parent := by
  have node := sound.nodes _ k (sound.getElem?_id hk)
  cases hp : k.parent with
  | root => rfl
  | join i =>
    obtain ⟨init, segment, _, _, stands⟩ := node.step
    rw [hp] at stands
    obtain ⟨j, hj, _⟩ := stands
    have id : j.id = i := (sound.nodes i j hj).id
    have there := List.mem_of_getElem? hj
    have parent : k.parent = .join j.id := by rw [id, hp]
    rw [← id]
    exact same j there (parents j there k hk kept parent) (id ▸ node.earlier i hp)

/-! ## Joins that lead to one row -/

section

variable {q : Selection} {ev : Evaluator} (hev : Evaluator.of d s q = .ok ev)
  (hq : q.joins = joins)

include hev hq

theorem length_reach_le_one {k : JoinNode} (hk : k ∈ joins)
    (single : ∀ parent, (d.along s k.step parent).length ≤ 1) (b : Binding) :
    (ev.reach root k b).length ≤ 1 := by
  unfold reach
  split
  · next parent _ =>
    rw [children_of hev (hq ▸ sound.getElem?_id hk)]
    exact single parent
  · exact Nat.zero_le 1

/-- All bindings give the same to joins that never lead to more than one row, as do the joins from
which they start. -/
theorem row_eq_of_single {keep : JoinNode → Bool} (parents : KeepsParents keep joins)
    (single : ∀ k ∈ joins, keep k = true → ∀ parent, (d.along s k.step parent).length ≤ 1)
    {b b' : Binding} (hb : b ∈ ev.expand root) (hc : b' ∈ ev.expand root) {k : JoinNode}
    (hk : k ∈ joins) (kept : keep k = true) :
    row root b (.join k.id) = row root b' (.join k.id) := by
  obtain ⟨_, fitsB⟩ := (mem_expand_iff sound.numbered hev hq).mp hb
  obtain ⟨_, fitsC⟩ := (mem_expand_iff sound.numbered hev hq).mp hc
  -- The parent of a join has been entered before it.
  induction h : k.id using Nat.strongRecOn generalizing k with
  | ind n ih =>
    subst h
    have parent : row root b k.parent = row root b' k.parent :=
      row_parent_eq sound parents hk kept fun j hj kept' before => ih j.id before hj kept' rfl
    obtain ⟨o, ho, givenB⟩ := fitsB k hk
    obtain ⟨o', ho', givenC⟩ := fitsC k hk
    obtain ⟨only, options⟩ :=
      exists_options_eq (length_reach_le_one sound hev hq hk (single k hk kept) b')
    rw [options_congr parent, options] at ho
    rw [options] at ho'
    cases List.mem_singleton.mp ho
    cases List.mem_singleton.mp ho'
    show b[k.id]?.join = b'[k.id]?.join
    rw [givenB, givenC]

end

/-! ## Bindings that are put together -/

section

variable {ι : Type} {l : List ι} {keep : ι → JoinNode → Bool} {pick : ι → Binding}
  (same : ∀ i ∈ l, ∀ i' ∈ l, ∀ k ∈ joins, keep i k = true → keep i' k = true →
    row root (pick i) (.join k.id) = row root (pick i') (.join k.id))

theorem getElem?_glue {k : JoinNode} (hk : k ∈ joins) :
    (glue joins keep pick l)[k.id]? =
      some ((l.find? (keep · k)).bind fun i => (pick i)[k.id]?.join) := by
  rw [glue, List.getElem?_map, sound.getElem?_id hk, Option.map_some]

include same

theorem row_glue {i : ι} (hi : i ∈ l) {k : JoinNode} (hk : k ∈ joins) (kept : keep i k = true) :
    row root (glue joins keep pick l) (.join k.id) = row root (pick i) (.join k.id) := by
  show (glue joins keep pick l)[k.id]?.join = _
  rw [getElem?_glue sound hk]
  cases h : l.find? (keep · k) with
  | none => exact absurd kept (List.find?_eq_none.mp h i hi)
  | some i' =>
    have kept' : keep i' k = true := List.find?_some (p := (keep · k)) h
    exact same i' (List.mem_of_find?_eq_some h) i hi k hk kept' kept

/-- Bindings that do not contradict each other are put together into one. -/
theorem exists_glue {q : Selection} {ev : Evaluator} (hev : Evaluator.of d s q = .ok ev)
    (hq : q.joins = joins) (parents : ∀ i ∈ l, KeepsParents (keep i) joins)
    (there : ∀ i ∈ l, pick i ∈ ev.expand root) :
    ∃ c ∈ ev.expand root, ∀ i ∈ l, ∀ k ∈ joins, keep i k = true →
      row root c (.join k.id) = row root (pick i) (.join k.id) := by
  let kept : JoinNode → Bool := fun k => l.any (keep · k)
  have parents' : KeepsParents kept joins := by
    intro j hj k hk on parent
    obtain ⟨i, hi, on⟩ := List.any_eq_true.mp on
    exact List.any_eq_true.mpr ⟨i, hi, parents i hi j hj k hk on parent⟩
  have others (n : Nat) (h : ∀ k ∈ joins, kept k = true → k.id ≠ n) :
      (glue joins keep pick l)[n]? = (blank joins)[n]? := by
    cases hn : joins[n]? with
    | none =>
      rw [glue, List.getElem?_map, hn, blank, List.getElem?_replicate,
        if_neg (Nat.not_lt.mpr (List.getElem?_eq_none_iff.mp hn))]
      rfl
    | some k =>
      have id := (sound.nodes n k hn).id
      have nowhere : l.find? (keep · k) = none := by
        refine List.find?_eq_none.mpr fun i hi on => ?_
        exact h k (List.mem_of_getElem? hn) (List.any_eq_true.mpr ⟨i, hi, on⟩) id
      rw [← id, getElem?_glue sound (List.mem_of_getElem? hn), nowhere, id, getElem?_blank hn]
      rfl
  have fits (k : JoinNode) (hk : k ∈ joins) (on : kept k = true) :
      Fits ev root (glue joins keep pick l) k := by
    obtain ⟨i, hi, on⟩ := List.any_eq_true.mp on
    obtain ⟨_, fits⟩ := (mem_expand_iff sound.numbered hev hq).mp (there i hi)
    obtain ⟨o, ho, given⟩ := fits k hk
    have parent : row root (glue joins keep pick l) k.parent = row root (pick i) k.parent :=
      row_parent_eq sound (parents i hi) hk on fun j hj on' _ => row_glue sound same hi hj on'
    refine ⟨o, options_congr parent ▸ ho, ?_⟩
    have here : (glue joins keep pick l)[k.id]?.join = (pick i)[k.id]?.join :=
      row_glue sound same hi hk on
    rw [getElem?_glue sound hk] at here ⊢
    rw [given] at here
    exact congrArg some here
  obtain ⟨c, hc, whole⟩ := exists_completion sound.numbered hev hq parents' others fits
  refine ⟨c, hc, fun i hi k hk on => ?_⟩
  rw [whole (.join k.id), row_glue sound same hi hk on]
  intro k' hk' id
  have at_ := sound.getElem?_id hk
  rw [Source.join.inj id, sound.getElem?_id hk'] at at_
  cases at_
  exact List.any_eq_true.mpr ⟨i, hi, on⟩

end

end

end EntityQuery.Evaluator
