import EntityQuery.Proofs.Path.Segments
import EntityQuery.Proofs.Schema.Lookup

/-!
# The joins of a request

Whatever paths have been resolved, the joins that they have entered are sound (`Joins.Sound`): each
stands at the position that is its number, its path is a segment longer than the path of its parent,
and what it leads to is what the schema says of that path. **A path that has been resolved reads its
attribute where there is such an attribute** (`resolve_sound`): in the root row, or in the row of a
join of the right kind.

Soundness is kept by `Joins.enter` (`enter_sound`), and from it by whole routes (`enterAll_sound`)
and by `Schema.resolve`. What makes the step from one join to the next work is that a path
determines its segments, so that a join found under the path of a step is the join of that step
(`Sound.step_eq`).
-/

namespace EntityQuery

open EntityQuery.Path

namespace Schema

/-- What an association, a map or a collection leads to. -/
def target? (s : Schema) (a : Attribute) : Option JoinTarget :=
  match a.kind with
  | .scalar _ => none
  | .association r => (s.entity? r.target).map fun e => .entity e.name
  | .map _ => some .map
  | .collection _ => some .collection

/-- The entity to which an association leads. -/
def next? (s : Schema) (e : Entity) (segment : String) : Option Entity := do
  let a ← e.attribute? segment
  let r ← a.association?
  s.entity? r.target

/-- The entity to which associations lead one after the other. -/
def via? (s : Schema) (e : Entity) (segs : List String) : Option Entity := segs.foldlM s.next? e

/-- The step along `segment` from the entity to which `init` leads. -/
def stepTo? (s : Schema) (root : Entity) (init : List String) (segment : String) :
    Option Step := do
  let e ← s.via? root init
  let a ← e.attribute? segment
  let target ← s.target? a
  return ⟨ofSegments (init ++ [segment]), e.name, segment, target⟩

/-- The steps go on from `init`, each by a segment of its own. -/
def Follows (s : Schema) (root : Entity) : List String → List Step → Prop
  | _, [] => True
  | init, step :: rest =>
    ∃ segment, IsSegment segment ∧ s.stepTo? root init segment = some step ∧
      s.Follows root (init ++ [segment]) rest

variable {s : Schema} {root : Entity}

theorem via?_concat {init : List String} {e : Entity} (h : s.via? root init = some e)
    (segment : String) : s.via? root (init ++ [segment]) = s.next? e segment := by
  unfold via? at h ⊢
  rw [List.foldlM_append, h]
  simp

theorem via?_cons {e owner : Entity} {segment : String} {rest : List String} :
    s.via? e (segment :: rest) = some owner ↔
      ∃ a r target, e.attribute? segment = some a ∧ a.kind = .association r ∧
        s.entity r.target = .ok target ∧ s.via? target rest = some owner := by
  simp only [via?, List.foldlM_cons, next?, Option.bind_eq_bind, Option.bind_eq_some_iff,
    Attribute.association?_eq_some_iff, entity_eq_ok_iff]
  constructor
  · rintro ⟨target, ⟨a, ha, r, hr, htarget⟩, h⟩
    exact ⟨a, r, target, ha, hr, htarget, h⟩
  · rintro ⟨a, r, target, ha, hr, htarget, h⟩
    exact ⟨target, ⟨a, ha, r, hr, htarget⟩, h⟩

theorem target?_eq_map_iff {a : Attribute} :
    s.target? a = some .map ↔ ∃ t, a.kind = .map t := by
  unfold target?
  cases a.kind <;> simp

theorem target?_eq_collection_iff {a : Attribute} :
    s.target? a = some .collection ↔ ∃ t, a.kind = .collection t := by
  unfold target?
  cases a.kind <;> simp

theorem target?_eq_entity_iff {a : Attribute} {name : String} :
    s.target? a = some (.entity name) ↔
      ∃ r e, a.kind = .association r ∧ s.entity? r.target = some e ∧ e.name = name := by
  unfold target?
  cases a.kind <;> simp

/-- What associations lead to is found in the schema. -/
theorem entity_via? {init : List String} {e : Entity} (hroot : s.entity root.name = .ok root)
    (h : s.via? root init = some e) : s.entity e.name = .ok e := by
  induction init using List.reverseRecOn generalizing e with
  | nil =>
    cases h
    exact hroot
  | append_singleton init segment ih =>
    cases hv : s.via? root init with
    | none =>
      unfold via? at hv h
      simp [List.foldlM_append, hv] at h
    | some d =>
      rw [via?_concat hv] at h
      simp only [next?, Option.bind_eq_bind, Option.bind_eq_some_iff] at h
      obtain ⟨_, _, r, _, he⟩ := h
      have he := entity_eq_ok_iff.mpr he
      rwa [name_of_entity he]

theorem stepTo?_eq_some_iff {init : List String} {segment : String} {step : Step} :
    s.stepTo? root init segment = some step ↔
      ∃ e a target, s.via? root init = some e ∧ e.attribute? segment = some a ∧
        s.target? a = some target ∧
        step = ⟨ofSegments (init ++ [segment]), e.name, segment, target⟩ := by
  unfold stepTo?
  simp only [Option.bind_eq_bind, Option.bind_eq_some_iff, Option.pure_def, Option.some.injEq]
  constructor
  · rintro ⟨e, he, a, ha, target, ht, rfl⟩
    exact ⟨e, a, target, he, ha, ht, rfl⟩
  · rintro ⟨e, a, target, he, ha, ht, rfl⟩
    exact ⟨e, he, a, ha, target, ht, rfl⟩

theorem path_of_stepTo? {init : List String} {segment : String} {step : Step}
    (h : s.stepTo? root init segment = some step) :
    step.path = ofSegments (init ++ [segment]) := by
  obtain ⟨e, a, target, _, _, _, rfl⟩ := stepTo?_eq_some_iff.mp h
  rfl

theorem follows_route {path base : String} {e : Entity} {init segs : List String}
    (hv : s.via? root init = some e) (hb : base = ofSegments init)
    (hs : ∀ x ∈ segs, IsSegment x) : s.Follows root init (s.route path e base segs).1 := by
  induction segs generalizing e base init with
  | nil => trivial
  | cons segment rest ih =>
    have hseg : IsSegment segment := hs segment List.mem_cons_self
    have hrest : ∀ x ∈ rest, IsSegment x := fun x hx => hs x (List.mem_cons_of_mem _ hx)
    have here : extend base segment = ofSegments (init ++ [segment]) := by
      rw [ofSegments_concat, hb]
    -- The step along this segment is the one of the schema, whatever comes after it.
    have step {a : Attribute} {t : JoinTarget} (ha : e.attribute? segment = some a)
        (ht : s.target? a = some t) :
        s.stepTo? root init segment = some ⟨extend base segment, e.name, segment, t⟩ := by
      simp [stepTo?, hv, ha, ht, here]
    unfold route
    split
    · trivial
    · next a ha =>
      split
      · split <;> trivial
      · next r hr =>
        split
        · trivial
        · next target htarget =>
          have ht : s.target? a = some (.entity target.name) := by
            simp [target?, hr, entity_eq_ok_iff.mp htarget]
          split
          · exact ⟨segment, hseg, step ha ht, trivial⟩
          · refine ⟨segment, hseg, step ha ht, ih ?_ here hrest⟩
            rw [via?_concat hv]
            simp [next?, ha, Attribute.association?_eq_some_iff.mpr hr,
              entity_eq_ok_iff.mp htarget]
      · next t ht =>
        have ht : s.target? a = some .map := by simp [target?, ht]
        split <;> exact ⟨segment, hseg, step ha ht, trivial⟩
      · next t ht =>
        have ht : s.target? a = some .collection := by simp [target?, ht]
        split
        · exact ⟨segment, hseg, step ha ht, trivial⟩
        · trivial

end Schema

/-! ## What is read where -/

/-- Whether a row of this kind has such a column; the root row has no kind. -/
def Column.fits : Column → Option JoinTarget → Bool
  | .attribute _ _, none | .attribute _ _, some (.entity _) => true
  | .mapKey, some .map | .mapValue, some .map => true
  | .element, some .collection => true
  | _, _ => false

theorem Column.kind_of_fits {column : Column} {kind : Option JoinTarget}
    (h : column.fits kind = true) :
    (∃ name label, column = .attribute name label) ∨
      (column = .mapKey ∨ column = .mapValue) ∧ kind = some .map ∨
      column = .element ∧ kind = some .collection := by
  unfold fits at h
  split at h <;> simp_all

/-- What the rows of a source are; nothing is known of a join that is not there. -/
def Joins.kindOf? (joins : Joins) : Source → Option (Option JoinTarget)
  | .root => some none
  | .join id => joins[id]?.map fun j => some j.target

/-- The attribute is read where there is one. -/
def AttrRef.In (joins : Joins) (a : AttrRef) : Prop :=
  ∃ kind, joins.kindOf? a.source = some kind ∧ a.column.fits kind = true

theorem Schema.fits_route {s : Schema} {path base : String} {e : Entity} {segs : List String}
    {d : Destination} (h : (s.route path e base segs).2 = .ok d) :
    d.column.fits ((s.route path e base segs).1.getLast?.map (·.target)) = true := by
  induction segs generalizing e base with
  | nil => cases h
  | cons segment rest ih =>
    unfold route at h ⊢
    split at h
    · cases h
    · next a ha =>
      split at h
      · next type hk =>
        split at h
        · cases h
          simp_all [Column.fits]
        · cases h
      · next r hk =>
        split at h
        · cases h
        · next target htarget =>
          split at h
          · cases h
            simp_all [Column.fits]
          · next next rest =>
            -- The path goes on: the last step is that of the rest, or this one if that has none.
            have := ih h
            dsimp only
            cases hr : (s.route path target (extend base segment) (next :: rest)).1 with
            | nil =>
              rw [hr] at this
              cases hc : d.column <;> simp_all [Column.fits]
            | cons st sts =>
              rw [hr] at this
              simpa [List.getLast?_cons_cons] using this
      · next t hk =>
        split at h
        · cases h
          simp_all [Column.fits]
        · cases h
          simp_all [Column.fits]
        · cases h
      · next t hk =>
        split at h
        · cases h
          simp_all [Column.fits]
        · cases h

/-! ## Sound joins -/

/-- The step that a join takes. -/
def JoinNode.step (j : JoinNode) : Step := ⟨j.path, j.owner, j.attr, j.target⟩

/-- The rows of the source are those to which the segments lead. -/
def Joins.Stands (joins : Joins) (init : List String) : Source → Prop
  | .root => init = []
  | .join id => ∃ j, joins[id]? = some j ∧ j.path = ofSegments init

/-- The join at position `i` takes the step that the schema has for its path, from its parent. -/
structure JoinNode.SoundAt (s : Schema) (root : Entity) (joins : Joins) (i : Nat)
    (j : JoinNode) : Prop where
  id : j.id = i
  step : ∃ init segment, (∀ x ∈ init ++ [segment], IsSegment x) ∧
    s.stepTo? root init segment = some j.step ∧ joins.Stands init j.parent
  /-- The parent has been entered before. -/
  earlier : ∀ k, j.parent = .join k → k < i

/-- Each join stands at the position that is its number, and after its parent. -/
structure Joins.Numbered (joins : Joins) : Prop where
  id : ∀ (i : Nat) (j : JoinNode), joins[i]? = some j → j.id = i
  earlier : ∀ (i : Nat) (j : JoinNode) (k : Nat), joins[i]? = some j → j.parent = .join k → k < i

/-- All joins are sound, and no path has been entered twice. -/
structure Joins.Sound (s : Schema) (root : Entity) (joins : Joins) : Prop where
  nodes : ∀ (i : Nat) (j : JoinNode), joins[i]? = some j → j.SoundAt s root joins i
  paths : (joins.map (·.path)).Nodup

theorem Joins.Sound.numbered {s : Schema} {root : Entity} {joins : Joins}
    (sound : joins.Sound s root) : joins.Numbered where
  id i j hj := (sound.nodes i j hj).id
  earlier i j k hj := (sound.nodes i j hj).earlier k

theorem Joins.getElem?_mono {joins joins' : Joins} {i : Nat} {j : JoinNode}
    (hp : joins <+: joins') (h : joins[i]? = some j) : joins'[i]? = some j := by
  obtain ⟨rest, rfl⟩ := hp
  rw [List.getElem?_append_left (List.getElem?_eq_some_iff.mp h).1, h]

theorem Joins.Stands.mono {joins joins' : Joins} {init : List String} {source : Source}
    (h : joins.Stands init source) (hp : joins <+: joins') : joins'.Stands init source := by
  cases source with
  | root => exact h
  | join id =>
    obtain ⟨j, hj, path⟩ := h
    exact ⟨j, Joins.getElem?_mono hp hj, path⟩

theorem JoinNode.SoundAt.mono {s : Schema} {root : Entity} {joins joins' : Joins} {i : Nat}
    {j : JoinNode} (h : j.SoundAt s root joins i) (hp : joins <+: joins') :
    j.SoundAt s root joins' i where
  id := h.id
  step := by
    obtain ⟨init, segment, hs, hstep, hstands⟩ := h.step
    exact ⟨init, segment, hs, hstep, hstands.mono hp⟩
  earlier := h.earlier

theorem AttrRef.In.mono {joins joins' : Joins} {a : AttrRef} (h : a.In joins)
    (hp : joins <+: joins') : a.In joins' := by
  obtain ⟨kind, hk, hf⟩ := h
  refine ⟨kind, ?_, hf⟩
  unfold Joins.kindOf? at hk ⊢
  cases hs : a.source with
  | root => rwa [hs] at hk
  | join id =>
    rw [hs] at hk
    obtain ⟨j, hj, rfl⟩ := Option.map_eq_some_iff.mp hk
    simp [Joins.getElem?_mono hp hj]

namespace Joins

variable {s : Schema} {root : Entity} {joins joins' : Joins} {init : List String}
  {source source' : Source}

theorem sound_nil : Sound s root [] where
  nodes := by simp
  paths := List.nodup_nil

/-- Appending the join of a new path keeps joins sound. -/
theorem Sound.concat (sound : joins.Sound s root) {j : JoinNode}
    (hj : j.SoundAt s root joins joins.length) (new : j.path ∉ joins.map (·.path)) :
    Sound s root (joins ++ [j]) where
  nodes := by
    intro i k hk
    rw [List.getElem?_append] at hk
    split at hk
    · exact (sound.nodes i k hk).mono (List.prefix_append _ _)
    · next hi =>
      have : i = joins.length := by
        have := (List.getElem?_eq_some_iff.mp hk).1
        simp only [List.length_singleton] at this
        omega
      subst this
      rw [Nat.sub_self, List.getElem?_cons_zero] at hk
      cases hk
      exact hj.mono (List.prefix_append _ _)
  paths := by
    rw [List.map_append, List.map_singleton, List.nodup_append]
    refine ⟨sound.paths, by simp, ?_⟩
    rintro a ha b hb rfl
    rw [List.mem_singleton] at hb
    exact new (hb ▸ ha)

/-- A join found under the path of a step is the join of that step. -/
theorem Sound.step_eq (sound : joins.Sound s root) {i : Nat} {j : JoinNode} {segment : String}
    {step : Step} (hj : joins[i]? = some j) (hi : ∀ x ∈ init ++ [segment], IsSegment x)
    (hstep : s.stepTo? root init segment = some step) (hpath : j.path = step.path) :
    j.step = step := by
  obtain ⟨init', segment', hi', hstep', _⟩ := (sound.nodes i j hj).step
  have : init' ++ [segment'] = init ++ [segment] := by
    apply ofSegments_inj hi' hi
    rw [← Schema.path_of_stepTo? hstep, ← hpath]
    exact (Schema.path_of_stepTo? hstep').symm
  obtain ⟨rfl, h⟩ := List.append_inj' this rfl
  cases h
  exact Option.some.inj (hstep'.symm.trans hstep)

/-- The attribute along which a join goes, and what it leads to. -/
theorem Sound.attributeOf (sound : joins.Sound s root) (hroot : s.entity root.name = .ok root)
    {i : Nat} {j : JoinNode} (hj : joins[i]? = some j) :
    ∃ a, s.attributeOf j.owner j.attr = .ok a ∧ s.target? a = some j.target := by
  obtain ⟨init, segment, _, hstep, _⟩ := (sound.nodes i j hj).step
  obtain ⟨e, a, target, he, ha, ht, hstep⟩ := Schema.stepTo?_eq_some_iff.mp hstep
  obtain ⟨_, howner, hattr, htarget⟩ := Step.mk.inj hstep
  refine ⟨a, Schema.attributeOf_eq_ok_iff.mpr ⟨e, ?_, hattr ▸ ha⟩, htarget ▸ ht⟩
  rw [howner]
  exact Schema.entity_via? hroot he

/-- Entering a step gives the join of that step, among joins that are still sound. -/
theorem enter_sound (sound : joins.Sound s root) (stands : joins.Stands init source)
    {segment : String} {step : Step} (hi : ∀ x ∈ init ++ [segment], IsSegment x)
    (hstep : s.stepTo? root init segment = some step) :
    (enter source joins step).2.Sound s root ∧ joins <+: (enter source joins step).2 ∧
      ∃ id j, (enter source joins step).1 = .join id ∧
        (enter source joins step).2[id]? = some j ∧ j.step = step := by
  unfold enter
  split
  · next j hj =>
    obtain ⟨i, hi', rfl⟩ := List.getElem_of_mem (List.mem_of_find?_eq_some hj)
    have hget : joins[i]? = some joins[i] := List.getElem?_eq_getElem hi'
    have hpath : joins[i].path = step.path := by simpa using List.find?_some hj
    refine ⟨sound, List.prefix_refl _, i, joins[i], ?_, hget, ?_⟩
    · rw [(sound.nodes i _ hget).id]
    · exact sound.step_eq hget hi hstep hpath
  · next hnone =>
    have new : step.path ∉ joins.map (·.path) := by
      intro hm
      obtain ⟨j, hj, hp⟩ := List.mem_map.mp hm
      exact absurd hp (by simpa using List.find?_eq_none.mp hnone j hj)
    refine ⟨sound.concat ⟨rfl, ⟨init, segment, hi, hstep, stands⟩, ?_⟩ new,
      List.prefix_append _ _, joins.length, _, rfl, List.getElem?_concat_length, rfl⟩
    rintro k rfl
    obtain ⟨j, hj, _⟩ := stands
    exact (List.getElem?_eq_some_iff.mp hj).1

/-- Entering the steps of a route leads to the join of the last of them. -/
theorem enterAll_sound {steps : List Step} (sound : joins.Sound s root)
    (stands : joins.Stands init source) (hi : ∀ x ∈ init, IsSegment x)
    (follows : s.Follows root init steps) :
    (enterAll source joins steps).2.Sound s root ∧ joins <+: (enterAll source joins steps).2 ∧
      ((steps = [] ∧ (enterAll source joins steps).1 = source) ∨
        ∃ id j, (enterAll source joins steps).1 = .join id ∧
          (enterAll source joins steps).2[id]? = some j ∧ steps.getLast? = some j.step) := by
  induction steps generalizing joins source init with
  | nil => exact ⟨sound, List.prefix_refl _, .inl ⟨rfl, rfl⟩⟩
  | cons step rest ih =>
    obtain ⟨segment, hseg, hstep, follows⟩ := follows
    have hi' : ∀ x ∈ init ++ [segment], IsSegment x :=
      List.forall_mem_append.mpr ⟨hi, List.forall_mem_singleton.mpr hseg⟩
    obtain ⟨sound₁, prefix₁, id, j, hid, hj, rfl⟩ := enter_sound sound stands hi' hstep
    -- The join just entered stands for the beginning of the path that is one segment longer.
    have stands₁ : (enter source joins j.step).2.Stands (init ++ [segment])
        (enter source joins j.step).1 := by
      rw [hid]
      exact ⟨j, hj, Schema.path_of_stepTo? hstep⟩
    obtain ⟨sound', prefix', last⟩ := ih sound₁ stands₁ hi' follows
    refine ⟨sound', prefix₁.trans prefix', .inr ?_⟩
    rcases last with ⟨rfl, _⟩ | ⟨id', j', hid', hj', hlast⟩
    · exact ⟨id, j, hid, hj, rfl⟩
    · refine ⟨id', j', hid', hj', ?_⟩
      rw [List.getLast?_cons, hlast]
      rfl

end Joins

/-! ## Resolving

The laws of steps that give a value or an error and keep something beside it. For paths these are
the joins; the laws hold of anything. -/

section

variable {σ : Type}

theorem Resolving.pure_eq_ok {α : Type} {a b : α} {s s' : σ} :
    (pure a : ExceptT Error (StateM σ) α) s = (.ok b, s') ↔ a = b ∧ s = s' := by
  show (Except.ok a, s) = (Except.ok b, s') ↔ _
  simp

/-- A step after another gives a value exactly if both do, the second going on from where the first
ended. -/
theorem Resolving.bind_eq_ok {α β : Type} {x : ExceptT Error (StateM σ) α}
    {f : α → ExceptT Error (StateM σ) β} {b : β} {s s' : σ} :
    (x >>= f) s = (.ok b, s') ↔
      ∃ a s₁, x s = (.ok a, s₁) ∧ f a s₁ = (.ok b, s') := by
  show ExceptT.bindCont f (x s).1 (x s).2 = _ ↔ _
  obtain ⟨outcome, s₁⟩ := x s
  constructor
  · intro h
    cases outcome with
    | error e => cases h
    | ok a => exact ⟨a, s₁, rfl, h⟩
  · rintro ⟨a, s₁, h, hf⟩
    cases h
    exact hf

/-- A step after another throws exactly if the first does, or the second where the first ends. -/
theorem Resolving.bind_eq_error {α β : Type} {x : ExceptT Error (StateM σ) α}
    {f : α → ExceptT Error (StateM σ) β} {e : Error} {s s' : σ} :
    (x >>= f) s = (.error e, s') ↔
      x s = (.error e, s') ∨ ∃ a s₁, x s = (.ok a, s₁) ∧ f a s₁ = (.error e, s') := by
  show ExceptT.bindCont f (x s).1 (x s).2 = _ ↔ _
  obtain ⟨outcome, s₁⟩ := x s
  constructor
  · intro h
    cases outcome with
    | error e' =>
      cases h
      exact .inl rfl
    | ok a => exact .inr ⟨a, s₁, rfl, h⟩
  · rintro (h | ⟨a, s₂, h, thrown⟩)
    · cases h
      rfl
    · cases h
      exact thrown

/-- A check keeps what there is as it is. -/
theorem Resolving.lift_eq_ok {α : Type} {x : Except Error α} {a : α} {s s' : σ} :
    (liftM x : ExceptT Error (StateM σ) α) s = (.ok a, s') ↔ x = .ok a ∧ s = s' := by
  show (x, s) = (Except.ok a, s') ↔ _
  simp

theorem Resolving.ofExcept_eq_ok {α : Type} {x : Except Error α} {a : α} {s s' : σ} :
    (MonadExcept.ofExcept x : ExceptT Error (StateM σ) α) s = (.ok a, s') ↔
      x = .ok a ∧ s = s' := by
  cases x with
  | error e =>
    show (Except.error e, s) = (Except.ok a, s') ↔ _
    simp
  | ok b =>
    show (pure b : ExceptT Error (StateM σ) α) s = _ ↔ _
    rw [Resolving.pure_eq_ok]
    simp

theorem Resolving.ofExcept_eq_error {α : Type} {x : Except Error α} {e : Error} {s s' : σ} :
    (MonadExcept.ofExcept x : ExceptT Error (StateM σ) α) s = (.error e, s') ↔
      x = .error e ∧ s = s' := by
  cases x with
  | error e' =>
    show (Except.error e', s) = (Except.error e, s') ↔ _
    simp
  | ok a =>
    show (Except.ok a, s) = (Except.error e, s') ↔ _
    simp

theorem Resolving.throw_ne_ok {α : Type} {e : Error} {a : α} {s s' : σ} :
    (throw e : ExceptT Error (StateM σ) α) s ≠ (.ok a, s') := by
  show (Except.error e, s) ≠ (Except.ok a, s')
  simp

/-- A step after a guard is taken only if nothing is thrown there. -/
theorem Resolving.guard_eq_ok {α : Type} {c : Prop} [Decidable c] {e : Error}
    {next : PUnit → ExceptT Error (StateM σ) α} {a : α} {s s' : σ} :
    (if c then throw e >>= next else next ⟨⟩) s = (.ok a, s') ↔
      ¬ c ∧ next ⟨⟩ s = (.ok a, s') := by
  by_cases h : c
  · rw [if_pos h, Resolving.bind_eq_ok]
    constructor
    · rintro ⟨_, _, hthrow, _⟩
      exact absurd hthrow Resolving.throw_ne_ok
    · exact fun hn => absurd h hn.1
  · rw [if_neg h, and_iff_right h]

theorem Resolving.mapM_lift_eq_ok {α β : Type} {f : α → Except Error β} {l : List α}
    {r : List β} {s s' : σ} :
    (l.mapM (fun a => liftM (f a)) : ExceptT Error (StateM σ) (List β)) s = (.ok r, s') ↔
      l.mapM f = .ok r ∧ s = s' := by
  induction l generalizing r s s' with
  | nil => exact Resolving.pure_eq_ok.trans (and_congr_left' EntityQuery.pure_eq_ok.symm)
  | cons a l ih =>
    rw [List.mapM_cons, List.mapM_cons]
    simp only [Resolving.bind_eq_ok, Resolving.lift_eq_ok, Resolving.pure_eq_ok, ih,
      EntityQuery.bind_eq_ok, EntityQuery.pure_eq_ok]
    constructor
    · rintro ⟨b, _, ⟨hb, rfl⟩, rest, _, ⟨hrest, rfl⟩, rfl, rfl⟩
      exact ⟨⟨b, hb, rest, hrest, rfl⟩, rfl⟩
    · rintro ⟨⟨b, hb, rest, hrest, rfl⟩, rfl⟩
      exact ⟨b, s, ⟨hb, rfl⟩, rest, s, ⟨hrest, rfl⟩, rfl, rfl⟩

end

namespace Schema

variable {s : Schema} {name path : String} {root : Entity} {joins joins' : Joins} {r : ResolvedPath}

/-- The steps of a path and what it reads; a path with an empty segment takes no step. -/
def track (s : Schema) (root : Entity) (path : String) : List Step × Except Error Destination :=
  if (segments path).any String.isEmpty then ([], .error (.invalidPath (.malformed path)))
  else s.route path root "" (segments path)

theorem follows_track (s : Schema) (root : Entity) (path : String) :
    s.Follows root [] (s.track root path).1 := by
  unfold track
  split
  · trivial
  · next proper =>
    refine follows_route rfl rfl fun x hx => isSegment_of_mem_segments hx ?_
    rintro rfl
    exact proper (List.any_eq_true.mpr ⟨"", hx, rfl⟩)

/-- A path that reads something has no empty segment. -/
theorem track_of_ok {d : Destination} (h : (s.track root path).2 = .ok d) :
    s.track root path = s.route path root "" (segments path) := by
  unfold track at h ⊢
  split
  · next malformed =>
    rw [if_pos malformed] at h
    cases h
  · rfl

/-- What is read is read where the steps lead. -/
theorem resolve_eq (hroot : s.entity name = .ok root) (path : String) (joins : Joins) :
    s.resolve name path joins =
      ((s.track root path).2.map fun d =>
          ⟨⟨(Joins.enterAll .root joins (s.track root path).1).1, d.column⟩, d.type, d.identifier⟩,
        (Joins.enterAll .root joins (s.track root path).1).2) := by
  unfold resolve track
  dsimp only
  split
  · rfl
  · rw [hroot]

/-- A path that is resolved follows its route to the end and enters the steps. -/
theorem route_of_resolve (hroot : s.entity name = .ok root)
    (h : s.resolve name path joins = (.ok r, joins')) :
    ∃ steps d, s.route path root "" (segments path) = (steps, .ok d) ∧ s.Follows root [] steps ∧
      r = ⟨⟨(Joins.enterAll .root joins steps).1, d.column⟩, d.type, d.identifier⟩ ∧
      joins' = (Joins.enterAll .root joins steps).2 := by
  rw [resolve_eq hroot] at h
  obtain ⟨hr, rfl⟩ := Prod.mk.inj h
  obtain ⟨d, hd, rfl⟩ := map_eq_ok.mp hr
  exact ⟨_, d, (track_of_ok hd).symm.trans (Prod.ext rfl hd), follows_track s root path, rfl, rfl⟩

/-- A path that is resolved reads its attribute where there is one, among joins that are still
sound. -/
theorem resolve_sound (hroot : s.entity name = .ok root) (sound : joins.Sound s root)
    (h : s.resolve name path joins = (.ok r, joins')) :
    joins'.Sound s root ∧ joins <+: joins' ∧ r.attr.In joins' := by
  obtain ⟨steps, d, route, follows, rfl, rfl⟩ := route_of_resolve hroot h
  have stands : joins.Stands [] .root := rfl
  obtain ⟨sound', prefix', last⟩ :=
    Joins.enterAll_sound sound stands (List.forall_mem_nil _) follows
  have fits := fits_route (congrArg Prod.snd route)
  rw [route] at fits
  refine ⟨sound', prefix', ?_⟩
  -- The attribute is read in the root if the path takes no step, else in the last join.
  rcases last with ⟨rfl, hsource⟩ | ⟨id, j, hid, hj, hlast⟩
  · exact ⟨none, by rw [hsource]; rfl, fits⟩
  · rw [hlast] at fits
    exact ⟨some j.target, by simp [hid, Joins.kindOf?, hj], fits⟩

end Schema

end EntityQuery
