import EntityQuery.Proofs.Dataset.Reach
import EntityQuery.Proofs.Filter.Sharing

/-!
# Bindings among other joins

If the joins of one selection are among those of another, then **the bindings of a record under the
one are those under the other as far as the shared joins are concerned**: each binding under the
many joins gives one under the few when the others are forgotten (`exists_agree_few`), and each
binding under the few is completed to one under the many (`exists_agree_many`). Bindings `Agree` if
they give the same rows to joins of the same path; `transfer` takes a binding to joins of other
numbers.
-/

namespace EntityQuery.Evaluator

variable {d : Dataset} {s : Schema} {e : Entity} {root : Record} {few many : Joins}

/-- The bindings give the same rows to joins of the same path. -/
def Agree (root : Record) (few many : Joins) (b c : Binding) : Prop :=
  ∀ source source', Source.Alike few many source source' → row root b source = row root c source'

/-- The join is given something that it can be given at the binding. -/
def Fits (ev : Evaluator) (root : Record) (b : Binding) (j : JoinNode) : Prop :=
  ∃ o ∈ ev.options root j b, b[j.id]? = some o

/-- The binding under other joins that gives each the row of the join of the same path. -/
def transfer (few many : Joins) (b : Binding) : Binding :=
  many.map fun k => (few.find? (·.path = k.path)).bind fun j => b[j.id]?.join

/-! ## Joins of the same path -/

section

variable (sound : few.Sound s e) (sound' : many.Sound s e) {j k : JoinNode} (hj : j ∈ few)
  (hk : k ∈ many) (path : k.path = j.path)

include sound sound' hj hk path

theorem step_eq_of_path : k.step = j.step := by
  obtain ⟨init, segment, hi, hstep, _⟩ := (sound'.nodes _ k (sound'.getElem?_id hk)).step
  exact (sound.step_eq (sound.getElem?_id hj) hi hstep path.symm).symm

/-- Joins of the same path have parents of the same path. -/
theorem parent_alike : j.parent.Alike few many k.parent := by
  obtain ⟨init, segment, hi, hstep, stands⟩ := (sound.nodes _ j (sound.getElem?_id hj)).step
  obtain ⟨init', segment', hi', hstep', stands'⟩ :=
    (sound'.nodes _ k (sound'.getElem?_id hk)).step
  have segments : init' ++ [segment'] = init ++ [segment] := by
    apply Path.ofSegments_inj hi' hi
    rw [← Schema.path_of_stepTo? hstep, ← Schema.path_of_stepTo? hstep']
    exact path
  obtain ⟨rfl, _⟩ := List.append_inj' segments rfl
  have ne {i : Nat} {i' : JoinNode} {joins : Joins} (sound : joins.Sound s e)
      (there : joins[i]? = some i') (at_ : i'.path = Path.ofSegments init') : init' ≠ [] := by
    intro nil
    rw [nil] at at_
    exact sound.path_ne_empty there at_
  cases hp : j.parent with
  | root =>
    rw [hp] at stands
    cases hp' : k.parent with
    | root => trivial
    | join i =>
      rw [hp'] at stands'
      obtain ⟨i', hi', at_⟩ := stands'
      exact absurd stands (ne sound' hi' at_)
  | join i =>
    rw [hp] at stands
    obtain ⟨i₁, hi₁, at_⟩ := stands
    cases hp' : k.parent with
    | root =>
      rw [hp'] at stands'
      exact absurd stands' (ne sound hi₁ at_)
    | join i' =>
      rw [hp'] at stands'
      obtain ⟨i₂, hi₂, at_'⟩ := stands'
      exact ⟨i₁, i₂, hi₁, hi₂, at_'.trans at_.symm⟩

theorem getElem?_transfer (b : Binding) :
    (transfer few many b)[k.id]? = some (b[j.id]?.join) := by
  have found : few.find? (·.path = k.path) = some j := by
    cases h : few.find? (·.path = k.path) with
    | none => exact absurd path.symm (by simpa using List.find?_eq_none.mp h j hj)
    | some i =>
      have hi : i.path = k.path := by simpa using List.find?_some h
      rw [sound.eq_of_path (sound.getElem?_id (List.mem_of_find?_eq_some h))
        (sound.getElem?_id hj) (hi.trans path)]
  rw [transfer, List.getElem?_map, sound'.getElem?_id hk, Option.map_some, found]
  rfl

end

section

variable (sound : few.Sound s e) (sound' : many.Sound s e)

include sound sound'

theorem row_transfer {source source' : Source} (h : source.Alike few many source')
    (b : Binding) : row root (transfer few many b) source' = row root b source := by
  cases source <;> cases source'
  case root.root => rfl
  case join.join i i' =>
    obtain ⟨j, k, hj, hk, path⟩ := h
    have whole := getElem?_transfer sound sound' (List.mem_of_getElem? hj) (List.mem_of_getElem? hk)
      path b
    rw [(sound.nodes i j hj).id, (sound'.nodes i' k hk).id] at whole
    show (transfer few many b)[i']?.join = b[i]?.join
    rw [whole]
    rfl
  all_goals exact h.elim

variable {q q' : Selection} {ev ev' : Evaluator} (hev : Evaluator.of d s q = .ok ev)
  (hev' : Evaluator.of d s q' = .ok ev') (hq : q.joins = few) (hq' : q'.joins = many)

include hev hev' hq hq'

/-- What a join can be given it can be given under other joins. -/
theorem fits_transfer {j k : JoinNode} (hj : j ∈ few) (hk : k ∈ many) (path : k.path = j.path)
    {b : Binding} (h : Fits ev root b j) : Fits ev' root (transfer few many b) k := by
  obtain ⟨o, ho, hb⟩ := h
  have children (parent : Record) : ev'.children parent k.id = ev.children parent j.id := by
    rw [children_of hev' (hq' ▸ sound'.getElem?_id hk), children_of hev (hq ▸ sound.getElem?_id hj),
      step_eq_of_path sound sound' hj hk path]
  have options : ev'.options root k (transfer few many b) = ev.options root j b := by
    unfold Evaluator.options reach
    rw [row_transfer sound sound' (parent_alike sound sound' hj hk path)]
    simp only [children]
  refine ⟨o, options ▸ ho, ?_⟩
  rw [getElem?_transfer sound sound' hj hk path, hb]
  rfl

end

theorem Agree.trans {mid : Joins} {b c c' : Binding} (first : Agree root few mid b c)
    (second : Agree root mid many c c') (within : Joins.Within s e few mid) :
    Agree root few many b c' := by
  intro source source' h
  cases source <;> cases source'
  case root.root => rfl
  case join.join i i' =>
    obtain ⟨j, k, hj, hk, path⟩ := h
    obtain ⟨m, hm, path'⟩ := within.covered j (List.mem_of_getElem? hj)
    have at_ := within.soundMany.getElem?_id hm
    rw [first (.join i) (.join m.id) ⟨j, m, hj, at_, path'⟩]
    exact second (.join m.id) (.join i') ⟨m, k, at_, hk, path.trans path'.symm⟩
  all_goals exact h.elim

/-- Bindings that give the same to the shared joins agree with the same bindings. -/
theorem Agree.of_rows {b c c' : Binding} (h : Agree root few many b c)
    (within : Joins.Within s e few many)
    (same : ∀ k ∈ many, Joins.on few k = true →
      row root c' (.join k.id) = row root c (.join k.id)) : Agree root few many b c' := by
  intro source source' alike
  rw [h source source' alike]
  cases source' with
  | root => rfl
  | join i' =>
    cases source with
    | root => exact alike.elim
    | join i =>
      obtain ⟨j, k, hj, hk, path⟩ := alike
      have on : Joins.on few k = true :=
        decide_eq_true (List.mem_map.mpr ⟨j, List.mem_of_getElem? hj, path.symm⟩)
      have id := (within.soundMany.nodes i' k hk).id
      rw [← id]
      exact (same k (List.mem_of_getElem? hk) on).symm

/-! ## Forgetting and completing -/

section

variable {joins : Joins} (numbered : joins.Numbered) {q : Selection} {ev : Evaluator}
  (hev : Evaluator.of d s q = .ok ev) (hq : q.joins = joins)

include numbered hev hq

theorem mem_expand_iff {b : Binding} :
    b ∈ ev.expand root ↔ (∀ i, (∀ j ∈ joins, j.id ≠ i) → b[i]? = (blank joins)[i]?) ∧
      ∀ j ∈ joins, Fits ev root b j := by
  rw [expand_eq, joins_of hev, hq]
  exact mem_expandFrom_iff (inTurn_of_numbered numbered)
    fun j hj => getElem?_blank (numbered.getElem?_id hj)

/-- What some of the joins have been given, together with their parents, can be completed. -/
theorem exists_completion {keep : JoinNode → Bool} (parents : KeepsParents keep joins) {b : Binding}
    (others : ∀ i, (∀ k ∈ joins, keep k = true → k.id ≠ i) → b[i]? = (blank joins)[i]?)
    (fits : ∀ k ∈ joins, keep k = true → Fits ev root b k) :
    ∃ c ∈ ev.expand root, ∀ source, (∀ k ∈ joins, source = .join k.id → keep k = true) →
      row root c source = row root b source := by
  have inTurn := inTurn_of_numbered numbered
  -- The joins that are kept can be followed first, and give what the binding gives.
  have first : b ∈ ev.expandFrom root (joins.filter keep) (blank joins) := by
    refine (mem_expandFrom_iff (inTurn.filter _) fun k hk => ?_).mpr
      ⟨fun i hi => ?_, fun k hk => ?_⟩
    · exact getElem?_blank (numbered.getElem?_id (List.mem_of_mem_filter hk))
    · exact others i fun k hk kept => hi k (List.mem_filter.mpr ⟨hk, kept⟩)
    · obtain ⟨hk, kept⟩ := List.mem_filter.mp hk
      exact fits k hk kept
  have whole : (ev.expandFrom root joins (blank joins)).Perm _ :=
    expandFrom_partition inTurn parents _
  obtain ⟨c, hc⟩ := List.exists_mem_of_ne_nil _
    (expandFrom_ne_nil ev root (joins.filter (!keep ·)) b)
  refine ⟨c, ?_, fun source kept => ?_⟩
  · rw [expand_eq, joins_of hev, hq]
    exact whole.mem_iff.mpr (List.mem_flatMap.mpr ⟨b, first, hc⟩)
  · refine eq_of_mem_expandFrom (g := (row root · source)) (fun k hk c o => ?_) hc
    obtain ⟨hk, left⟩ := List.mem_filter.mp hk
    refine row_assign_of_ne (fun same => ?_) c o
    rw [kept k hk same] at left
    cases left

end

/-- Joins that are not shared are left empty. -/
theorem getElem?_transfer_of_unshared (sound : many.Sound s e) {i : Nat}
    (h : ∀ k ∈ many, Joins.on few k = true → k.id ≠ i) (b : Binding) :
    (transfer few many b)[i]? = (blank many)[i]? := by
  rw [transfer, List.getElem?_map, blank, List.getElem?_replicate]
  cases hi : many[i]? with
  | none => rw [if_neg (Nat.not_lt.mpr (List.getElem?_eq_none_iff.mp hi))]; rfl
  | some k =>
    have unshared : few.find? (·.path = k.path) = none := by
      refine List.find?_eq_none.mpr fun j hj path => ?_
      have on : Joins.on few k = true :=
        decide_eq_true (List.mem_map.mpr ⟨j, hj, of_decide_eq_true path⟩)
      exact h k (List.mem_of_getElem? hi) on (sound.nodes i k hi).id
    rw [if_pos (List.getElem?_eq_some_iff.mp hi).1, Option.map_some, unshared]
    rfl

theorem on_of_alike (sound : many.Sound s e) {source : Source} {k : JoinNode} (hk : k ∈ many)
    (h : source.Alike few many (.join k.id)) : Joins.on few k = true := by
  cases source with
  | root => exact h.elim
  | join i =>
    obtain ⟨j, k', hj, hk', path⟩ := h
    cases hk'.symm.trans (sound.getElem?_id hk)
    exact decide_eq_true (List.mem_map.mpr ⟨j, List.mem_of_getElem? hj, path.symm⟩)

/-- The shared joins come with their parents. -/
theorem keepsParents_few (within : Joins.Within s e few many) :
    KeepsParents (Joins.on few) many := by
  intro k hk k' hk' on parent
  obtain ⟨j, hj, path⟩ := List.mem_map.mp (of_decide_eq_true on)
  have alike := parent_alike within.soundFew within.soundMany hj hk' path.symm
  exact on_of_alike within.soundMany hk (parent ▸ alike)

section

variable (within : Joins.Within s e few many) {q q' : Selection} {ev ev' : Evaluator}
  (hev : Evaluator.of d s q = .ok ev) (hev' : Evaluator.of d s q' = .ok ev')
  (hq : q.joins = few) (hq' : q'.joins = many)

include within hev hev' hq hq'

/-- A binding under the many joins gives one under the few. -/
theorem exists_agree_few {c : Binding} (hc : c ∈ ev'.expand root) :
    ∃ b ∈ ev.expand root, Agree root few many b c := by
  obtain ⟨_, fits⟩ := (mem_expand_iff within.soundMany.numbered hev' hq').mp hc
  refine ⟨transfer many few c, (mem_expand_iff within.soundFew.numbered hev hq).mpr ⟨?_, ?_⟩, ?_⟩
  · exact fun i hi => getElem?_transfer_of_unshared within.soundFew (fun j hj _ => hi j hj) c
  · intro j hj
    obtain ⟨k, hk, path⟩ := within.covered j hj
    exact fits_transfer within.soundMany within.soundFew hev' hev hq' hq hk hj path.symm (fits k hk)
  · exact fun source source' h => row_transfer within.soundMany within.soundFew h.symm c

/-- A binding under the few joins is completed to one under the many. -/
theorem exists_agree_many {b : Binding} (hb : b ∈ ev.expand root) :
    ∃ c ∈ ev'.expand root, Agree root few many b c := by
  obtain ⟨_, fits⟩ := (mem_expand_iff within.soundFew.numbered hev hq).mp hb
  have given : ∀ k ∈ many, Joins.on few k = true → Fits ev' root (transfer few many b) k := by
    intro k hk on
    obtain ⟨j, hj, path⟩ := List.mem_map.mp (of_decide_eq_true on)
    exact fits_transfer within.soundFew within.soundMany hev hev' hq hq' hj hk path.symm (fits j hj)
  obtain ⟨c, hc, same⟩ :=
    exists_completion within.soundMany.numbered hev' hq' (keepsParents_few within)
      (fun i hi => getElem?_transfer_of_unshared within.soundMany hi b) given
  refine ⟨c, hc, fun source source' h => ?_⟩
  rw [← row_transfer within.soundFew within.soundMany h b]
  exact (same source' fun k hk there => on_of_alike within.soundMany hk (there ▸ h)).symm

end

end EntityQuery.Evaluator
