import EntityQuery.Proofs.Path.Ways
import Mathlib.Data.Set.Function

/-!
# The joins of a sequence of paths

Paths are resolved one after the other among the same joins, and each may fail after it has entered
some of its steps. **Which joins there are in the end depends only on which paths have been
resolved** (`resolved_joins_canonical`): the joins are canonical (`Joins.Canonical`), and in another
order the same paths enter the same joins under other numbers.

Entering a step again changes nothing (`enter_again`), so that a path that has been resolved gives
the same once more (`resolve_again`). The joins are those of the steps of all paths
(`mem_paths_resolveAll`), and the steps of a path that is followed to its end are its beginnings
that lead to rows (`mem_paths_route`, `Begins`). Joins of the same paths are the same joins numbered
otherwise (`Sound.perm_renumber`); the other number of a join is found by its path (`numberAmong`),
and resolving a path there gives the same with these numbers (`resolve_renumber`).
-/

namespace EntityQuery

open EntityQuery.Path

/-! ## Entering -/

namespace Joins

variable {joins joins' : Joins} {source source' : Source} {step : Step} {steps : List Step}

theorem prefix_enter : joins <+: (enter source joins step).2 := by
  unfold enter
  split
  · exact List.prefix_refl _
  · exact List.prefix_append _ _

theorem prefix_enterAll : joins <+: (enterAll source joins steps).2 := by
  induction steps generalizing joins source with
  | nil => exact List.prefix_refl _
  | cons step rest ih => exact prefix_enter.trans ih

/-- A step that has been entered stands there for good, and is not entered again. -/
theorem enter_again (grown : (enter source joins step).2 <+: joins') :
    enter source' joins' step = ((enter source joins step).1, joins') := by
  obtain ⟨rest, rfl⟩ := grown
  have found : ∃ j, (enter source joins step).2.find? (·.path = step.path) = some j ∧
      (enter source joins step).1 = .join j.id := by
    unfold enter
    split
    · next j hj => exact ⟨j, hj, rfl⟩
    · next none =>
      refine ⟨⟨joins.length, source, step.owner, step.attr, step.path, step.target⟩, ?_, rfl⟩
      rw [List.find?_append, none]
      simp
  obtain ⟨j, hj, hid⟩ := found
  rw [hid, enter, List.find?_append, hj]
  rfl

theorem enterAll_again (grown : (enterAll source joins steps).2 <+: joins') :
    enterAll source joins' steps = ((enterAll source joins steps).1, joins') := by
  induction steps generalizing joins source with
  | nil => rfl
  | cons step rest ih =>
    have first : enter source joins' step = ((enter source joins step).1, joins') :=
      enter_again (prefix_enterAll.trans grown)
    show enterAll (enter source joins' step).1 (enter source joins' step).2 rest = _
    rw [first]
    exact ih grown

theorem mem_paths_enter {path : String} : path ∈ (enter source joins step).2.map (·.path) ↔
    path ∈ joins.map (·.path) ∨ path = step.path := by
  unfold enter
  split
  · next j hj =>
    have here : step.path ∈ joins.map (·.path) :=
      List.mem_map.mpr ⟨j, List.mem_of_find?_eq_some hj, by simpa using List.find?_some hj⟩
    exact ⟨.inl, fun h => h.elim id fun same => same ▸ here⟩
  · rw [List.map_append, List.mem_append, List.map_singleton, List.mem_singleton]

theorem mem_paths_enterAll {path : String} : path ∈ (enterAll source joins steps).2.map (·.path) ↔
    path ∈ joins.map (·.path) ∨ path ∈ steps.map (·.path) := by
  induction steps generalizing joins source with
  | nil => simp [enterAll]
  | cons step rest ih =>
    have first : path ∈ (enter source joins step).2.map (·.path) ↔
        path ∈ joins.map (·.path) ∨ path = step.path := mem_paths_enter
    rw [List.map_cons, List.mem_cons, ← or_assoc, ← first]
    exact ih

/-- Where the steps lead does not depend on the joins that there are. -/
theorem exists_enterAll_stands {s : Schema} {root : Entity} {init : List String}
    (hi : ∀ x ∈ init, IsSegment x) (follows : s.Follows root init steps) :
    ∃ last, ∀ joins source, joins.Sound s root → joins.Stands init source →
      (enterAll source joins steps).2.Stands last (enterAll source joins steps).1 := by
  induction steps generalizing init with
  | nil => exact ⟨init, fun _ _ _ stands => stands⟩
  | cons step rest ih =>
    obtain ⟨segment, hseg, hstep, follows⟩ := follows
    have hi' : ∀ x ∈ init ++ [segment], IsSegment x :=
      List.forall_mem_append.mpr ⟨hi, List.forall_mem_singleton.mpr hseg⟩
    obtain ⟨last, leads⟩ := ih hi' follows
    refine ⟨last, fun joins source sound stands => ?_⟩
    obtain ⟨sound₁, _, id, j, hid, hj, rfl⟩ := enter_sound sound stands hi' hstep
    have stands₁ : (enter source joins j.step).2.Stands (init ++ [segment])
        (enter source joins j.step).1 := by
      rw [hid]
      exact ⟨j, hj, Schema.path_of_stepTo? hstep⟩
    exact leads _ _ sound₁ stands₁

end Joins

/-! ## Resolving, whatever comes of it -/

namespace Schema

variable {s : Schema} {name path : String} {root : Entity} {joins joins' : Joins}

/-- Resolves paths one after the other among the same joins. -/
def resolveAll (s : Schema) (name : String) :
    List String → Joins → List (Except Error ResolvedPath) × Joins
  | [], joins => ([], joins)
  | path :: rest, joins =>
    let (outcome, joins) := s.resolve name path joins
    let (outcomes, joins) := s.resolveAll name rest joins
    (outcome :: outcomes, joins)

section

variable (hroot : s.entity name = .ok root)

include hroot

/-- Joins stay sound also where a path fails. -/
theorem sound_resolve (sound : joins.Sound s root) (path : String) :
    (s.resolve name path joins).2.Sound s root := by
  rw [resolve_eq hroot]
  have stands : joins.Stands [] .root := rfl
  exact (Joins.enterAll_sound sound stands (List.forall_mem_nil _) (follows_track s root path)).1

theorem sound_resolveAll (sound : joins.Sound s root) (paths : List String) :
    (s.resolveAll name paths joins).2.Sound s root := by
  induction paths generalizing joins with
  | nil => exact sound
  | cons path rest ih => exact ih (sound_resolve hroot sound path)

theorem prefix_resolveAll (paths : List String) : joins <+: (s.resolveAll name paths joins).2 := by
  induction paths generalizing joins with
  | nil => exact List.prefix_refl _
  | cons path rest ih =>
    have first : joins <+: (s.resolve name path joins).2 := by
      rw [resolve_eq hroot]
      exact Joins.prefix_enterAll
    exact first.trans ih

/-- A path that has been resolved gives the same once more, and enters nothing. -/
theorem resolve_again (grown : (s.resolve name path joins).2 <+: joins') :
    s.resolve name path joins' = ((s.resolve name path joins).1, joins') := by
  rw [resolve_eq hroot] at grown ⊢
  rw [resolve_eq hroot, Joins.enterAll_again grown]

theorem resolveAll_again (paths : List String) :
    List.Forall₂ (fun path outcome => s.resolve name path (s.resolveAll name paths joins).2 =
        (outcome, (s.resolveAll name paths joins).2))
      paths (s.resolveAll name paths joins).1 := by
  induction paths generalizing joins with
  | nil => exact .nil
  | cons path rest ih => exact .cons (resolve_again hroot (prefix_resolveAll hroot rest)) ih

/-- The joins are those of the steps of all paths. -/
theorem mem_paths_resolveAll {paths : List String} {p : String} :
    p ∈ (s.resolveAll name paths joins).2.map (·.path) ↔
      p ∈ joins.map (·.path) ∨ ∃ path ∈ paths, p ∈ (s.track root path).1.map (·.path) := by
  induction paths generalizing joins with
  | nil => simp [resolveAll]
  | cons path rest ih =>
    have first : p ∈ (s.resolve name path joins).2.map (·.path) ↔
        p ∈ joins.map (·.path) ∨ p ∈ (s.track root path).1.map (·.path) := by
      rw [resolve_eq hroot]
      exact Joins.mem_paths_enterAll
    rw [List.exists_mem_cons_iff, ← or_assoc, ← first]
    exact ih

end

end Schema

/-! ## Canonical joins -/

/-- What the rows at the end of an attribute of a kind are. -/
inductive JoinTarget.Of : AttributeKind → JoinTarget → Prop
  | association (r : Association) : Of (.association r) (.entity r.target)
  | map (t : MapTable) : Of (.map t) .map
  | collection (t : CollectionTable) : Of (.collection t) .collection

theorem JoinTarget.of_target? {s : Schema} {a : Attribute} {target : JoinTarget}
    (h : s.target? a = some target) : target.Of a.kind := by
  unfold Schema.target? at h
  split at h
  · cases h
  · next r hr =>
    obtain ⟨e, he, rfl⟩ := Option.map_eq_some_iff.mp h
    rw [hr, Schema.name_of_entity (Schema.entity_eq_ok_iff.mpr he)]
    exact .association r
  · next t ht =>
    cases h
    exact ht ▸ .map t
  · next t ht =>
    cases h
    exact ht ▸ .collection t

/-- The join at position `i` goes on from the root, or from an earlier join to the entity along an
attribute of which it goes. -/
structure JoinNode.CanonicalAt (s : Schema) (root : Entity) (joins : Joins) (i : Nat)
    (j : JoinNode) : Prop where
  id : j.id = i
  parent : (j.parent = .root ∧ j.owner = root.name ∧ j.path = j.attr) ∨
    ∃ (k : Nat) (p : JoinNode), k < i ∧ joins[k]? = some p ∧ j.parent = .join k ∧
      p.target = .entity j.owner ∧ j.path = p.path ++ "." ++ j.attr
  along : ∃ a, s.attributeOf j.owner j.attr = .ok a ∧ j.target.Of a.kind

/-- All joins are canonical, and no two have a path in common. -/
structure Joins.Canonical (s : Schema) (root : Entity) (joins : Joins) : Prop where
  nodes : ∀ (i : Nat) (j : JoinNode), joins[i]? = some j → j.CanonicalAt s root joins i
  paths : (joins.map (·.path)).Nodup

theorem Joins.Sound.canonical {s : Schema} {root : Entity} {joins : Joins}
    (sound : joins.Sound s root) (hroot : s.entity root.name = .ok root) :
    joins.Canonical s root := by
  refine ⟨fun i j hj => ⟨(sound.nodes i j hj).id, ?_, ?_⟩, sound.paths⟩
  · obtain ⟨init, segment, hi, hstep, stands⟩ := (sound.nodes i j hj).step
    obtain ⟨e, a, target, hv, ha, ht, step⟩ := Schema.stepTo?_eq_some_iff.mp hstep
    obtain ⟨path, owner, attr, -⟩ := Step.mk.inj step
    rw [ofSegments_concat] at path
    cases hparent : j.parent with
    | root =>
      rw [hparent] at stands
      cases stands
      cases hv
      exact .inl ⟨rfl, owner, by rw [path, attr, ofSegments_nil, extend_empty]⟩
    | join k =>
      rw [hparent] at stands
      obtain ⟨p, hp, leads⟩ := stands
      refine .inr ⟨k, p, (sound.nodes i j hj).earlier k hparent, hp, rfl, ?_, ?_⟩
      · -- The parent takes the last of the segments that lead to the owner.
        obtain ⟨init', segment', hi', hstep', -⟩ := (sound.nodes k p hp).step
        obtain ⟨e', a', target', hv', ha', ht', step'⟩ := Schema.stepTo?_eq_some_iff.mp hstep'
        obtain ⟨path', -, -, target_eq⟩ := Step.mk.inj step'
        obtain rfl : init = init' ++ [segment'] :=
          ofSegments_inj (fun x hx => hi x (List.mem_append_left _ hx)) hi' (leads.symm.trans path')
        rw [Schema.via?_concat hv'] at hv
        simp only [Schema.next?, ha', Option.bind_eq_bind, Option.bind_some,
          Option.bind_eq_some_iff, Attribute.association?_eq_some_iff] at hv
        obtain ⟨r, hr, he⟩ := hv
        rw [target_eq, owner, ← Option.some.injEq, ← ht']
        simp [Schema.target?, hr, he]
      · rw [path, attr, ← leads, extend_of_ne (sound.path_ne_empty hp)]
  · obtain ⟨a, ha, ht⟩ := sound.attributeOf hroot hj
    exact ⟨a, ha, JoinTarget.of_target? ht⟩

/-! ## Which paths are joined -/

namespace Schema

variable {s : Schema} {e : Entity} {segment last : String} {rest mid : List String}

/-- The segments lead along associations to an entity, of which the last one names an association, a
map or a collection. -/
def NamesRows (s : Schema) (e : Entity) (mid : List String) (last : String) : Prop :=
  ∃ owner a, s.via? e mid = some owner ∧ owner.attribute? last = some a ∧
    ∀ type, a.kind ≠ .scalar type

theorem namesRows_nil {a : Attribute} (ha : e.attribute? segment = some a) :
    s.NamesRows e [] segment ↔ ∀ type, a.kind ≠ .scalar type := by
  constructor
  · rintro ⟨_, _, hv, h, kind⟩
    cases hv
    cases ha.symm.trans h
    exact kind
  · exact fun kind => ⟨e, a, rfl, ha, kind⟩

theorem namesRows_cons : s.NamesRows e (segment :: mid) last ↔
    ∃ a r target, e.attribute? segment = some a ∧ a.kind = .association r ∧
      s.entity r.target = .ok target ∧ s.NamesRows target mid last := by
  constructor
  · rintro ⟨owner, b, hv, hb, kind⟩
    obtain ⟨a, r, target, ha, hr, htarget, hv⟩ := via?_cons.mp hv
    exact ⟨a, r, target, ha, hr, htarget, owner, b, hv, hb, kind⟩
  · rintro ⟨a, r, target, ha, hr, htarget, owner, b, hv, hb, kind⟩
    exact ⟨owner, b, via?_cons.mpr ⟨a, r, target, ha, hr, htarget, hv⟩, hb, kind⟩

/-- The path after `init` is a beginning of the segments which names an association, a map or a
collection. -/
def Begins (s : Schema) (e : Entity) (init segs : List String) (path : String) : Prop :=
  ∃ mid last, mid ++ [last] <+: segs ∧ s.NamesRows e mid last ∧
    path = ofSegments (init ++ (mid ++ [last]))

theorem not_begins_nil {init : List String} {path : String} : ¬ s.Begins e init [] path := by
  rintro ⟨mid, last, h, _⟩
  simpa using List.prefix_nil.mp h

theorem begins_cons {init : List String} {path : String} {a : Attribute}
    (ha : e.attribute? segment = some a) :
    s.Begins e init (segment :: rest) path ↔
      ((∀ type, a.kind ≠ .scalar type) ∧ path = ofSegments (init ++ [segment])) ∨
      ∃ r target, a.kind = .association r ∧ s.entity r.target = .ok target ∧
        s.Begins target (init ++ [segment]) rest path := by
  constructor
  · rintro ⟨mid, last, h, names, rfl⟩
    cases mid with
    | nil =>
      obtain ⟨rfl, _⟩ := List.cons_prefix_cons.mp h
      exact .inl ⟨(namesRows_nil ha).mp names, rfl⟩
    | cons first mid =>
      obtain ⟨rfl, within⟩ := List.cons_prefix_cons.mp h
      obtain ⟨b, r, target, hb, hr, htarget, names⟩ := namesRows_cons.mp names
      cases ha.symm.trans hb
      exact .inr ⟨r, target, hr, htarget, mid, last, within, names, by simp⟩
  · rintro (⟨kind, rfl⟩ | ⟨r, target, hr, htarget, mid, last, h, names, rfl⟩)
    · exact ⟨[], segment, List.cons_prefix_cons.mpr ⟨rfl, List.nil_prefix⟩,
        (namesRows_nil ha).mpr kind, rfl⟩
    · exact ⟨segment :: mid, last, List.cons_prefix_cons.mpr ⟨rfl, h⟩,
        namesRows_cons.mpr ⟨a, r, target, ha, hr, htarget, names⟩, by simp⟩

/-- The steps of a path that is followed to its end are its beginnings that lead to rows. -/
theorem mem_paths_route {path base p : String} {init segs : List String} {d : Destination}
    (hb : base = ofSegments init) (h : (s.route path e base segs).2 = .ok d) :
    p ∈ (s.route path e base segs).1.map (·.path) ↔ s.Begins e init segs p := by
  induction segs generalizing e base init with
  | nil => cases h
  | cons segment rest ih =>
    have here : extend base segment = ofSegments (init ++ [segment]) := by
      rw [ofSegments_concat, hb]
    unfold route at h ⊢
    split at h
    · cases h
    · next a ha =>
      rw [begins_cons ha]
      split at h
      · next type hk =>
        split at h
        · next none =>
          rw [if_pos none, List.isEmpty_iff.mp none]
          simp [hk]
        · cases h
      · next r hk =>
        split at h
        · cases h
        · next target htarget =>
          have onward : (∃ r target, a.kind = .association r ∧ s.entity r.target = .ok target ∧
              s.Begins target (init ++ [segment]) rest p) ↔
              s.Begins target (init ++ [segment]) rest p := by
            simp [hk, htarget]
          rw [onward]
          dsimp only
          split at h
          · simp [hk, here, not_begins_nil]
          · rw [List.map_cons, List.mem_cons, ih here h]
            simp [hk, here]
      · next t hk =>
        split at h
        · simp [hk, here]
        · simp [hk, here]
        · cases h
      · next t hk =>
        split at h
        · next none =>
          rw [if_pos none]
          simp [hk, here]
        · cases h

end Schema

/-! ## Joins under other numbers -/

/-- The source with the joins numbered otherwise. -/
def Source.renumber (f : Nat → Nat) : Source → Source
  | .root => .root
  | .join i => .join (f i)

/-- The join with the joins numbered otherwise. -/
def JoinNode.renumber (f : Nat → Nat) (j : JoinNode) : JoinNode :=
  { j with id := f j.id, parent := j.parent.renumber f }

/-- What has been resolved with the joins numbered otherwise. -/
def ResolvedPath.renumber (f : Nat → Nat) (r : ResolvedPath) : ResolvedPath :=
  { r with attr := { r.attr with source := r.attr.source.renumber f } }

namespace Joins

/-- The number that a join has among other joins, where it has the same path. -/
def numberAmong (joins joins' : Joins) (i : Nat) : Nat :=
  ((joins[i]?.bind fun j => joins'.find? (·.path = j.path)).map (·.id)).getD i

variable {s : Schema} {root : Entity} {joins joins' : Joins}

theorem Sound.numberAmong_eq (sound' : joins'.Sound s root) {i k : Nat} {j j' : JoinNode}
    (hj : joins[i]? = some j) (hj' : joins'[k]? = some j') (path : j'.path = j.path) :
    joins.numberAmong joins' i = k := by
  cases found : joins'.find? (·.path = j.path) with
  | none =>
    have other := List.find?_eq_none.mp found j' (List.mem_of_getElem? hj')
    exact absurd path (by simpa using other)
  | some j'' =>
    have there := sound'.getElem?_id (List.mem_of_find?_eq_some found)
    have path'' : j''.path = j.path := by simpa using List.find?_some found
    obtain rfl := sound'.eq_of_path there hj' (path''.trans path.symm)
    simp [numberAmong, hj, found, (sound'.nodes k j'' hj').id]

/-- Where the same segments lead among other joins. -/
theorem Sound.renumber_of_stands (sound : joins.Sound s root) (sound' : joins'.Sound s root)
    {init : List String} {source source' : Source} (h : joins.Stands init source)
    (h' : joins'.Stands init source') :
    source.renumber (joins.numberAmong joins') = source' := by
  cases source with
  | root =>
    cases (show init = [] from h)
    exact sound'.stands_unique rfl h'
  | join i =>
    obtain ⟨j, hj, path⟩ := h
    cases source' with
    | root =>
      cases (show init = [] from h')
      exact absurd path (sound.path_ne_empty hj)
    | join k =>
      obtain ⟨j', hj', path'⟩ := h'
      exact congrArg Source.join (sound'.numberAmong_eq hj hj' (path'.trans path.symm))

/-- Joins of the same path are the same apart from their numbers. -/
theorem Sound.renumber_of_path (sound : joins.Sound s root) (sound' : joins'.Sound s root)
    {j j' : JoinNode} (hj : j ∈ joins) (hj' : j' ∈ joins') (path : j'.path = j.path) :
    j.renumber (joins.numberAmong joins') = j' := by
  have at_id := sound.getElem?_id hj
  have at_id' := sound'.getElem?_id hj'
  obtain ⟨init, segment, hi, hstep, stands⟩ := (sound.nodes _ j at_id).step
  obtain ⟨init', segment', hi', hstep', stands'⟩ := (sound'.nodes _ j' at_id').step
  have segments : init' ++ [segment'] = init ++ [segment] := by
    apply ofSegments_inj hi' hi
    rw [← Schema.path_of_stepTo? hstep, ← Schema.path_of_stepTo? hstep']
    exact path
  obtain ⟨rfl, h⟩ := List.append_inj' segments rfl
  cases h
  have step : j.step = j'.step := Option.some.inj (hstep.symm.trans hstep')
  obtain ⟨-, owner, attr, target⟩ := Step.mk.inj step
  have id := sound'.numberAmong_eq at_id at_id' path
  have parent := sound.renumber_of_stands sound' stands stands'
  cases j'
  simp only [JoinNode.renumber, JoinNode.mk.injEq]
  exact ⟨id, parent, owner, attr, path.symm, target⟩

/-- Sound joins of the same paths are the same joins, numbered otherwise. -/
theorem Sound.perm_renumber (sound : joins.Sound s root) (sound' : joins'.Sound s root)
    (alike : ∀ p, p ∈ joins'.map (·.path) ↔ p ∈ joins.map (·.path)) :
    joins'.Perm (joins.map (·.renumber (joins.numberAmong joins'))) := by
  have paths : (joins.map (·.renumber (joins.numberAmong joins'))).map (·.path) =
      joins.map (·.path) := by
    rw [List.map_map]
    rfl
  have nodup : (joins.map (·.renumber (joins.numberAmong joins'))).Nodup :=
    List.Nodup.of_map (·.path) (paths ▸ sound.paths)
  refine (List.perm_ext_iff_of_nodup (List.Nodup.of_map _ sound'.paths) nodup).mpr fun j' => ?_
  constructor
  · intro hj'
    obtain ⟨j, hj, path⟩ := List.mem_map.mp ((alike j'.path).mp (List.mem_map_of_mem hj'))
    exact List.mem_map.mpr ⟨j, hj, sound.renumber_of_path sound' hj hj' path.symm⟩
  · intro h
    obtain ⟨j, hj, rfl⟩ := List.mem_map.mp h
    obtain ⟨j', hj', path⟩ := List.mem_map.mp ((alike j.path).mpr (List.mem_map_of_mem hj))
    rwa [sound.renumber_of_path sound' hj hj' path]

/-- No two joins get the same number. -/
theorem Sound.injOn_numberAmong (sound : joins.Sound s root) (sound' : joins'.Sound s root)
    (alike : ∀ p, p ∈ joins'.map (·.path) ↔ p ∈ joins.map (·.path)) :
    Set.InjOn (joins.numberAmong joins') {i | i < joins.length} := by
  have counterpart {i : Nat} (hi : i < joins.length) :
      ∃ j', joins'[joins.numberAmong joins' i]? = some j' ∧ j'.path = joins[i].path := by
    obtain ⟨j', hj', path⟩ := List.mem_map.mp
      ((alike joins[i].path).mpr (List.mem_map_of_mem (List.getElem_mem hi)))
    have there := sound'.getElem?_id hj'
    rw [sound'.numberAmong_eq (List.getElem?_eq_getElem hi) there path]
    exact ⟨j', there, path⟩
  intro i hi k hk same
  obtain ⟨j, hj, path⟩ := counterpart hi
  obtain ⟨j', hj', path'⟩ := counterpart hk
  cases hj.symm.trans (same ▸ hj')
  have hi' := List.getElem?_eq_getElem hi
  have hk' := List.getElem?_eq_getElem hk
  rw [← (sound.nodes i _ hi').id, sound.eq_of_path hi' hk' (path.symm.trans path'),
    (sound.nodes k _ hk').id]

end Joins

/-! ## Sequences of paths -/

namespace Schema

variable {s : Schema} {name : String} {root : Entity}

section

variable (hroot : s.entity name = .ok root)

include hroot

/-- A path that is resolved has a step for each beginning that leads to rows. -/
theorem mem_paths_track {path p : String} {joins : Joins}
    (succeeds : Succeeds (s.resolve name path joins).1) :
    p ∈ (s.track root path).1.map (·.path) ↔ s.Begins root [] (segments path) p := by
  obtain ⟨r, hr⟩ := succeeds
  rw [resolve_eq hroot] at hr
  obtain ⟨d, hd, _⟩ := map_eq_ok.mp hr
  have route := track_of_ok hd
  rw [route] at hd ⊢
  exact mem_paths_route rfl hd

/-- Among joins of the same paths a path is resolved to the same, numbered otherwise. -/
theorem resolve_renumber {joins joins' : Joins} (sound : joins.Sound s root)
    (sound' : joins'.Sound s root) {path : String} {outcome outcome' : Except Error ResolvedPath}
    (h : s.resolve name path joins = (outcome, joins))
    (h' : s.resolve name path joins' = (outcome', joins')) :
    outcome' = outcome.map (·.renumber (joins.numberAmong joins')) := by
  rw [resolve_eq hroot] at h h'
  obtain ⟨rfl, same⟩ := Prod.mk.inj h
  obtain ⟨rfl, same'⟩ := Prod.mk.inj h'
  obtain ⟨last, leads⟩ := Joins.exists_enterAll_stands (List.forall_mem_nil _)
    (follows_track s root path)
  have stands := leads joins .root sound rfl
  have stands' := leads joins' .root sound' rfl
  rw [same] at stands
  rw [same'] at stands'
  have source := sound.renumber_of_stands sound' stands stands'
  cases (s.track root path).2 with
  | error e => rfl
  | ok d =>
    rw [← source]
    rfl

end

/-- **Paths leave the same joins behind in any order.** Whether they succeed or fail, paths that are
resolved one after the other leave canonical joins behind, among which each of them is resolved to
the same once more and enters nothing. If all succeed, there is a join for each of their beginnings
that names an association, a map or a collection, and no other. The same paths in another order, or
more often, leave the same joins behind and are resolved to the same, apart from the numbers of the
joins. -/
theorem resolved_joins_canonical (hroot : s.entity name = .ok root) (paths : List String) :
    let outcomes := (s.resolveAll name paths []).1
    let joins := (s.resolveAll name paths []).2
    joins.Canonical s root ∧
    List.Forall₂ (fun path outcome => s.resolve name path joins = (outcome, joins))
      paths outcomes ∧
    ((∀ outcome ∈ outcomes, Succeeds outcome) →
      ∀ p, p ∈ joins.map (·.path) ↔ ∃ path ∈ paths, ∃ init last,
        init ++ [last] <+: segments path ∧ s.NamesRows root init last ∧
          p = ofSegments (init ++ [last])) ∧
    ∀ paths' : List String, (∀ path, path ∈ paths' ↔ path ∈ paths) →
      let joins' := (s.resolveAll name paths' []).2
      ∃ f : Nat → Nat, Set.InjOn f {i | i < joins.length} ∧
        joins'.Perm (joins.map (·.renumber f)) ∧
        ∀ path ∈ paths, s.resolve name path joins' =
          ((s.resolve name path joins).1.map (·.renumber f), joins') := by
  intro outcomes joins
  have sound (paths : List String) : (s.resolveAll name paths []).2.Sound s root :=
    sound_resolveAll hroot Joins.sound_nil paths
  have again (paths : List String) : ∀ path ∈ paths, ∃ outcome ∈ (s.resolveAll name paths []).1,
      s.resolve name path (s.resolveAll name paths []).2 =
        (outcome, (s.resolveAll name paths []).2) :=
    fun path hpath => exists_of_forall₂ (resolveAll_again hroot paths).flip hpath
  have entered (paths : List String) (p : String) :
      p ∈ (s.resolveAll name paths []).2.map (·.path) ↔
        ∃ path ∈ paths, p ∈ (s.track root path).1.map (·.path) :=
    (mem_paths_resolveAll hroot).trans (or_iff_right List.not_mem_nil)
  refine ⟨?canonical, resolveAll_again hroot paths, ?beginnings, ?renumbered⟩
  case canonical =>
    exact (sound paths).canonical (name_of_entity hroot ▸ hroot)
  case beginnings =>
    intro succeed p
    refine (entered paths p).trans (exists_congr fun path => and_congr_right fun hpath => ?_)
    obtain ⟨outcome, houtcome, h⟩ := again paths path hpath
    have succeeds : Succeeds (s.resolve name path joins).1 := h ▸ succeed outcome houtcome
    exact mem_paths_track hroot succeeds
  case renumbered =>
    intro paths' same joins'
    have alike (p : String) : p ∈ joins'.map (·.path) ↔ p ∈ joins.map (·.path) := by
      rw [entered, entered]
      simp only [same]
    refine ⟨joins.numberAmong joins', (sound paths).injOn_numberAmong (sound paths') alike,
      (sound paths).perm_renumber (sound paths') alike, fun path hpath => ?_⟩
    obtain ⟨outcome, _, h⟩ := again paths path hpath
    obtain ⟨outcome', _, h'⟩ := again paths' path ((same path).mpr hpath)
    rw [h', h, resolve_renumber hroot (sound paths) (sound paths') h h']

namespace Genealogy

/-- Persons, each with a mother and with notes. -/
def person : Entity :=
  ⟨"Person", "person", "id",
    [⟨"id", "id", false, .scalar .integer⟩,
      ⟨"mother", "mother_id", true,
        .association ⟨.manyToOne, "Person", none, true, some "mother_id", none⟩⟩,
      ⟨"notes", "notes", true,
        .map ⟨"person_notes", "person_id", "notes_key", "notes_value", .text, .text⟩⟩]⟩

def schema : Schema := ⟨[person]⟩

end Genealogy

open Genealogy in
theorem resolved_joins_canonical_genealogy :
    schema.entity "Person" = .ok person ∧
    let joins := (schema.resolveAll "Person" ["mother.notes.key", "mother.mother"] []).2
    joins.Canonical schema person ∧
    (∀ p, p ∈ joins.map (·.path) ↔ ∃ path ∈ ["mother.notes.key", "mother.mother"],
      ∃ init last, init ++ [last] <+: segments path ∧ schema.NamesRows person init last ∧
        p = ofSegments (init ++ [last])) ∧
    ∃ f : Nat → Nat, Set.InjOn f {i | i < joins.length} ∧
      (schema.resolveAll "Person" ["mother.mother", "mother.notes.key"] []).2.Perm
        (joins.map (·.renumber f)) := by
  have known : schema.entity "Person" = .ok person := rfl
  have succeed : ∀ outcome ∈
      (schema.resolveAll "Person" ["mother.notes.key", "mother.mother"] []).1,
      Succeeds outcome := by
    intro outcome h
    have ok : (schema.resolveAll "Person" ["mother.notes.key", "mother.mother"] []).1.all
        Except.isOk = true := by decide +kernel
    have ok := List.all_eq_true.mp ok outcome h
    cases outcome with
    | error e => cases ok
    | ok r => exact ⟨r, rfl⟩
  obtain ⟨canonical, _, beginnings, reordered⟩ :=
    resolved_joins_canonical known ["mother.notes.key", "mother.mother"]
  obtain ⟨f, distinct, perm, _⟩ :=
    reordered ["mother.mother", "mother.notes.key"] (by simp [or_comm])
  exact ⟨known, canonical, beginnings succeed, f, distinct, perm⟩

open Genealogy in
/-- A map has no size, but the joins that lead to it stay. -/
example :
    (schema.resolveAll "Person" ["mother.notes.size", "mother.mother"] []).2.map (·.path) =
        ["mother", "mother.notes", "mother.mother"] ∧
      (schema.resolveAll "Person" ["mother.mother", "mother.notes.size"] []).2.map (·.path) =
        ["mother", "mother.mother", "mother.notes"] := by
  decide +kernel

end Schema

end EntityQuery
