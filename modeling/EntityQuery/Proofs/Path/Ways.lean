import EntityQuery.Proofs.Path.Joins
import Mathlib.Data.List.Sort

/-!
# The way of a path

The steps of a path that has been resolved are taken by joins each of which is the parent of the
next (`Way`). **Which joins these are is determined by their paths alone** (`Sound.stands_unique`),
so that joins of two requests that have a path in common have the whole way there in common. A path
that is resolved is read at the end of its way (`Schema.resolve_way`), and the joins on it come in
the order in which they are taken (`Way.filter_on`).
-/

namespace EntityQuery

open EntityQuery.Path

namespace Joins

/-- The joins lead from one source to another, each from the rows of the one before. -/
inductive Way (joins : Joins) : Source → List JoinNode → Source → Prop
  | here (source : Source) : Way joins source [] source
  | step {j : JoinNode} {rest : List JoinNode} {destination : Source} (hj : joins[j.id]? = some j)
      (way : Way joins (.join j.id) rest destination) : Way joins j.parent (j :: rest) destination

variable {s : Schema} {root : Entity} {joins joins' : Joins} {init : List String}
  {source destination : Source} {way : List JoinNode}

theorem Way.mono (h : joins.Way source way destination) (grown : joins <+: joins') :
    joins'.Way source way destination := by
  induction h with
  | here source => exact .here source
  | step hj _ ih => exact .step (getElem?_mono grown hj) ih

theorem Way.mem (h : joins.Way source way destination) : ∀ j ∈ way, joins[j.id]? = some j := by
  induction h with
  | here => exact List.forall_mem_nil _
  | step hj _ ih => exact List.forall_mem_cons.mpr ⟨hj, ih⟩

/-- The way starts at the source, and every other join on it comes from one before. -/
theorem Way.parent (h : joins.Way source way destination) :
    ∀ k ∈ way, k.parent = source ∨ ∃ j ∈ way, k.parent = .join j.id := by
  induction h with
  | here => exact List.forall_mem_nil _
  | @step j rest destination hj _ ih =>
    refine List.forall_mem_cons.mpr ⟨.inl rfl, fun k hk => .inr ?_⟩
    rcases ih k hk with parent | ⟨i, hi, parent⟩
    · exact ⟨j, List.mem_cons_self, parent⟩
    · exact ⟨i, List.mem_cons_of_mem j hi, parent⟩

/-- The way ends at the source, or at a join on it. -/
theorem Way.ends (h : joins.Way source way destination) :
    destination = source ∨ ∃ j ∈ way, destination = .join j.id := by
  induction h with
  | here => exact .inl rfl
  | @step j rest destination hj _ ih =>
    right
    rcases ih with rfl | ⟨k, hk, rfl⟩
    · exact ⟨j, List.mem_cons_self, rfl⟩
    · exact ⟨k, List.mem_cons_of_mem j hk, rfl⟩

/-! ## Sound joins -/

theorem Sound.eq_of_path (sound : joins.Sound s root) {i k : Nat} {j j' : JoinNode}
    (hj : joins[i]? = some j) (hj' : joins[k]? = some j') (path : j.path = j'.path) : j = j' :=
  List.inj_on_of_nodup_map sound.paths (List.mem_of_getElem? hj) (List.mem_of_getElem? hj') path

theorem Numbered.getElem?_id (numbered : joins.Numbered) {j : JoinNode} (hj : j ∈ joins) :
    joins[j.id]? = some j := by
  obtain ⟨i, hi⟩ := List.mem_iff_getElem?.mp hj
  rwa [numbered.id i j hi]

theorem Sound.getElem?_id (sound : joins.Sound s root) {j : JoinNode} (hj : j ∈ joins) :
    joins[j.id]? = some j :=
  sound.numbered.getElem?_id hj

theorem Sound.path_ne_empty (sound : joins.Sound s root) {i : Nat} {j : JoinNode}
    (hj : joins[i]? = some j) : j.path ≠ "" := by
  obtain ⟨init, segment, hi, hstep, _⟩ := (sound.nodes i j hj).step
  have path : j.path = ofSegments (init ++ [segment]) := Schema.path_of_stepTo? hstep
  rw [path]
  exact fun empty => List.concat_ne_nil (a := segment) init
    (by simpa using (ofSegments_eq_empty_iff hi).mp empty)

/-- There is one source to which given segments lead. -/
theorem Sound.stands_unique (sound : joins.Sound s root) {source' : Source}
    (h : joins.Stands init source) (h' : joins.Stands init source') : source = source' := by
  cases source with
  | root =>
    cases source' with
    | root => rfl
    | join k =>
      obtain ⟨j, hj, path⟩ := h'
      rw [show init = [] from h] at path
      exact absurd path (sound.path_ne_empty hj)
  | join i =>
    obtain ⟨j, hj, path⟩ := h
    cases source' with
    | root =>
      rw [show init = [] from h'] at path
      exact absurd path (sound.path_ne_empty hj)
    | join k =>
      obtain ⟨j', hj', path'⟩ := h'
      have same := sound.eq_of_path hj hj' (path.trans path'.symm)
      rw [← (sound.nodes i j hj).id, same, (sound.nodes k j' hj').id]

/-- A step that is entered goes on from the source. -/
theorem enter_way (sound : joins.Sound s root) (stands : joins.Stands init source)
    {segment : String} {step : Step} (hi : ∀ x ∈ init ++ [segment], IsSegment x)
    (hstep : s.stepTo? root init segment = some step) :
    ∃ j : JoinNode, (enter source joins step).1 = .join j.id ∧
      (enter source joins step).2[j.id]? = some j ∧ j.step = step ∧ j.parent = source := by
  obtain ⟨sound', grown, id, j, hid, hj, step_eq⟩ := enter_sound sound stands hi hstep
  have hj_id := (sound'.nodes id j hj).id
  refine ⟨j, hj_id ▸ hid, hj_id ▸ hj, step_eq, ?_⟩
  -- The path of the join determines the segments, and these its parent.
  obtain ⟨init', segment', hi', hstep', stands'⟩ := (sound'.nodes id j hj).step
  have segments : init' ++ [segment'] = init ++ [segment] := by
    apply ofSegments_inj hi' hi
    rw [← Schema.path_of_stepTo? hstep, ← step_eq]
    exact (Schema.path_of_stepTo? hstep').symm
  obtain ⟨rfl, _⟩ := List.append_inj' segments rfl
  exact sound'.stands_unique stands' (stands.mono grown)

theorem enterAll_way {steps : List Step} (sound : joins.Sound s root)
    (stands : joins.Stands init source) (hi : ∀ x ∈ init, IsSegment x)
    (follows : s.Follows root init steps) :
    ∃ way, (enterAll source joins steps).2.Way source way (enterAll source joins steps).1 ∧
      way.map JoinNode.step = steps := by
  induction steps generalizing joins source init with
  | nil => exact ⟨[], .here source, rfl⟩
  | cons step rest ih =>
    obtain ⟨segment, hseg, hstep, follows⟩ := follows
    have hi' : ∀ x ∈ init ++ [segment], IsSegment x :=
      List.forall_mem_append.mpr ⟨hi, List.forall_mem_singleton.mpr hseg⟩
    obtain ⟨sound₁, _⟩ := enter_sound sound stands hi' hstep
    obtain ⟨j, hid, hj, rfl, rfl⟩ := enter_way sound stands hi' hstep
    have stands₁ : (enter j.parent joins j.step).2.Stands (init ++ [segment])
        (enter j.parent joins j.step).1 := by
      rw [hid]
      exact ⟨j, hj, Schema.path_of_stepTo? hstep⟩
    obtain ⟨_, grown, _⟩ := enterAll_sound sound₁ stands₁ hi' follows
    obtain ⟨way, leads, steps⟩ := ih sound₁ stands₁ hi' follows
    refine ⟨j :: way, .step (getElem?_mono grown hj) ?_, by rw [List.map_cons, steps]⟩
    rwa [← hid]

theorem Sound.pairwise_id (sound : joins.Sound s root) :
    joins.Pairwise fun j k => j.id < k.id := by
  refine List.pairwise_iff_getElem.mpr fun i k hi hk hik => ?_
  rwa [(sound.nodes i _ (List.getElem?_eq_getElem hi)).id,
    (sound.nodes k _ (List.getElem?_eq_getElem hk)).id]

theorem Way.pairwise_id (h : joins.Way source way destination) (sound : joins.Sound s root) :
    (way.Pairwise fun j k => j.id < k.id) ∧ ∀ i, source = .join i → ∀ j ∈ way, i < j.id := by
  induction h with
  | here => exact ⟨.nil, fun _ _ => List.forall_mem_nil _⟩
  | @step j rest destination hj _ ih =>
    obtain ⟨sorted, after⟩ := ih
    have after := after j.id rfl
    refine ⟨List.pairwise_cons.mpr ⟨after, sorted⟩, fun i parent => ?_⟩
    have before := (sound.nodes j.id j hj).earlier i parent
    exact List.forall_mem_cons.mpr ⟨before, fun k hk => Nat.lt_trans before (after k hk)⟩

/-- Whether a join is on the way. -/
def on (way : List JoinNode) (j : JoinNode) : Bool := j.path ∈ way.map (·.path)

theorem Way.mem_of_on (h : joins.Way source way destination) (sound : joins.Sound s root)
    {j : JoinNode} (hj : j ∈ joins) (there : on way j = true) : j ∈ way := by
  obtain ⟨k, hk, path⟩ := List.mem_map.mp (of_decide_eq_true there)
  rwa [sound.eq_of_path (sound.getElem?_id hj) (h.mem k hk) path.symm]

theorem on_of_mem {j : JoinNode} (hj : j ∈ way) : on way j = true :=
  decide_eq_true (List.mem_map_of_mem hj)

theorem Way.on_of_id (h : joins.Way source way destination) (sound : joins.Sound s root)
    {j k : JoinNode} (hj : j ∈ joins) (hk : k ∈ way) (id : k.id = j.id) : on way j = true := by
  have same := h.mem k hk
  rw [id, sound.getElem?_id hj] at same
  exact Option.some.inj same ▸ on_of_mem hk

/-- The joins on the way of a path come in the order in which they are taken. -/
theorem Way.filter_on (h : joins.Way source way destination) (sound : joins.Sound s root) :
    joins.filter (on way) = way := by
  have : Std.Irrefl fun j k : JoinNode => j.id < k.id := ⟨fun _ => Nat.lt_irrefl _⟩
  have : Std.Antisymm fun j k : JoinNode => j.id < k.id :=
    ⟨fun _ _ hjk hkj => absurd hjk (Nat.lt_asymm hkj)⟩
  refine (sound.pairwise_id.filter _).eq_of_mem_iff (h.pairwise_id sound).1 fun j => ?_
  constructor
  · intro hj
    obtain ⟨hj, there⟩ := List.mem_filter.mp hj
    exact h.mem_of_on sound hj there
  · intro hj
    exact List.mem_filter.mpr ⟨List.mem_of_getElem? (h.mem j hj), on_of_mem hj⟩

end Joins

/-! ## Resolved paths -/

/-- A path that is resolved is read at the end of the way of its steps. -/
theorem Schema.resolve_way {s : Schema} {name path : String} {root : Entity}
    {joins joins' : Joins} {r : ResolvedPath} (hroot : s.entity name = .ok root)
    (sound : joins.Sound s root) (h : s.resolve name path joins = (.ok r, joins')) :
    ∃ steps d way, s.route path root "" (segments path) = (steps, .ok d) ∧
      r = ⟨⟨r.attr.source, d.column⟩, d.type, d.identifier⟩ ∧
      joins'.Way .root way r.attr.source ∧ way.map JoinNode.step = steps := by
  obtain ⟨steps, d, route, follows, rfl, rfl⟩ := route_of_resolve hroot h
  have stands : joins.Stands [] .root := rfl
  obtain ⟨way, leads, hway⟩ :=
    Joins.enterAll_way sound stands (List.forall_mem_nil _) follows
  exact ⟨steps, d, way, route, rfl, leads, hway⟩

end EntityQuery
