import EntityQuery.Proofs.Dataset.Reach
import EntityQuery.Proofs.Path.Types
import EntityQuery.Proofs.Preparation

/-!
# The numbers of joins

Joins are known by their numbers: a binding has a place for each of them, and the join and the way
to find its rows are looked up by the same number. `expand?` and `value?` look everything up with
care and give nothing where there is nothing of some number. **For a compiled filter they give what
`expand` and `value` give** (`InRange`, `inRange_of_compiled`), since joins stand at their numbers
(`expand?_eq`); and as they stand after their parents, the row from which a join goes has been
looked for before the join is followed (`ParentFound`, `parentFound`).
-/

namespace EntityQuery

/-- The attributes that are read to find out whether a record is selected. -/
def Selection.reads (q : Selection) : List AttrRef :=
  (q.predicate.map Predicate.reads).getD [] ++ q.groupBy

namespace Evaluator

/-! ## Looking up with care -/

/-- The row of a source, if the binding has a place for it. -/
def row? (root : Record) (b : Binding) : Source → Option (Option Row)
  | .root => some (some (.entity root))
  | .join id => b[id]?

/-- The rows of a join that are reached from a record, if there is such a join and a plan for it. -/
def children? (ev : Evaluator) (parent : Record) (id : Nat) : Option (List Row) := do
  let join ← ev.joins[id]?
  match ← ev.plans[id]? with
  | .link target l => return (ev.data.targetsOf target join.attr parent l).map .entity
  | .elements table =>
    return ((ev.data.elementRows table).filter (·.owner.key = parent.key)).map .element

/-- The rows to which a join leads at a binding that has a place for the row of its parent. -/
def reach? (ev : Evaluator) (root : Record) (join : JoinNode) (b : Binding) :
    Option (List Row) := do
  match ← row? root b join.parent with
  | some (.entity parent) => ev.children? parent join.id
  | _ => return []

/-- The bindings to which a binding extends along a join, if it has a place for the rows of the join
as well. -/
def extendAlong? (ev : Evaluator) (root : Record) (join : JoinNode) (b : Binding) :
    Option (List Binding) := do
  let children ← ev.reach? root join b
  if children.isEmpty then return [b]
  else if join.id < b.length then return children.map fun child => b.set join.id (some child)
  else none

/-- All bindings of a root record, if everything is found on the way. -/
def expand? (ev : Evaluator) (root : Record) : Option (List Binding) :=
  ev.joins.foldlM
    (fun bindings join => (bindings.mapM (ev.extendAlong? root join)).map List.flatten)
    [blank ev.joins]

/-- The value of an attribute at a binding, if the binding has a place for the row of which it is
read. -/
def value? (root : Record) (b : Binding) (a : AttrRef) : Option Value :=
  (row? root b a.source).map fun row => (row.map (·.read a.column)).getD .null

/-! ## Everything is found -/

/-- Among this many joins there are the join itself and its parent. -/
structure Placed (n : Nat) (j : JoinNode) : Prop where
  id : j.id < n
  parent : ∀ p, j.parent = .join p → p < n

variable {ev : Evaluator} {root : Record} {d : Dataset} {s : Schema} {q : Selection} {e : Entity}
  {j : JoinNode} {b : Binding}

theorem placed_of_numbered {joins : Joins} (numbered : joins.Numbered) (hj : j ∈ joins) :
    Placed joins.length j := by
  have there := numbered.getElem?_id hj
  have bound := (List.getElem?_eq_some_iff.mp there).1
  exact ⟨bound, fun p parent => (numbered.earlier _ j p there parent).trans bound⟩

theorem length_plans (hev : Evaluator.of d s q = .ok ev) : ev.plans.length = ev.joins.length := by
  obtain ⟨plans, hplans, h⟩ := bind_eq_ok.mp hev
  cases h
  exact (mapM_eq_ok.mp hplans).length_eq.symm

theorem getElem?_eq_some_join {i : Nat} (h : i < b.length) : b[i]? = some b[i]?.join := by
  rw [List.getElem?_eq_getElem h]
  rfl

theorem row?_eq {source : Source} (there : ∀ id, source = .join id → id < b.length) :
    row? root b source = some (row root b source) := by
  cases source with
  | root => rfl
  | join id => exact getElem?_eq_some_join (there id rfl)

theorem children?_eq (plans : ev.plans.length = ev.joins.length) {id : Nat}
    (there : id < ev.joins.length) (parent : Record) :
    ev.children? parent id = some (ev.children parent id) := by
  unfold children? children
  rw [List.getElem?_eq_getElem there, List.getElem?_eq_getElem (plans ▸ there)]
  generalize ev.plans[id] = plan
  cases plan <;> rfl

theorem reach?_eq (plans : ev.plans.length = ev.joins.length)
    (placed : Placed ev.joins.length j) (places : b.length = ev.joins.length) :
    ev.reach? root j b = some (ev.reach root j b) := by
  unfold reach? reach
  rw [row?_eq fun id parent => places ▸ placed.parent id parent]
  show (match row root b j.parent with
    | some (.entity parent) => ev.children? parent j.id
    | _ => some []) = _
  cases row root b j.parent with
  | none => rfl
  | some row =>
    cases row with
    | entity parent => exact children?_eq plans placed.id parent
    | element => rfl

theorem extendAlong?_eq (plans : ev.plans.length = ev.joins.length)
    (placed : Placed ev.joins.length j) (places : b.length = ev.joins.length) :
    ev.extendAlong? root j b = some (ev.extendAlong root j b) := by
  have room : j.id < b.length := places ▸ placed.id
  unfold extendAlong?
  rw [reach?_eq plans placed places]
  show (if (ev.reach root j b).isEmpty then some [b]
    else if j.id < b.length then
      some ((ev.reach root j b).map fun child => b.set j.id (some child))
    else none) = some (if (ev.reach root j b).isEmpty then [b]
      else (ev.reach root j b).map fun child => b.set j.id (some child))
  rw [if_pos room]
  split <;> rfl

theorem length_of_mem_extendAlong {c : Binding} (h : c ∈ ev.extendAlong root j b) :
    c.length = b.length := by
  rw [extendAlong_eq] at h
  obtain ⟨o, _, rfl⟩ := List.mem_map.mp h
  exact length_assign j.id b o

theorem mapM_eq_some_map {α β : Type} {f : α → Option β} {g : α → β} {l : List α}
    (h : ∀ a ∈ l, f a = some (g a)) : l.mapM f = some (l.map g) := by
  induction l with
  | nil => rfl
  | cons a l ih =>
    obtain ⟨here, h⟩ := List.forall_mem_cons.mp h
    rw [List.mapM_cons, here, ih h]
    rfl

/-- Following joins that have their places, nothing is missing and no binding gets longer or
shorter. -/
theorem foldlM_extendAlong? (root : Record) (plans : ev.plans.length = ev.joins.length)
    {js : List JoinNode} (placed : ∀ j ∈ js, Placed ev.joins.length j) {bs : List Binding}
    (places : ∀ b ∈ bs, b.length = ev.joins.length) :
    let all := js.foldl (fun bindings join => bindings.flatMap (ev.extendAlong root join)) bs
    js.foldlM (fun bindings join => (bindings.mapM (ev.extendAlong? root join)).map List.flatten)
        bs = some all ∧
      ∀ b ∈ all, b.length = ev.joins.length := by
  induction js generalizing bs with
  | nil => exact ⟨rfl, places⟩
  | cons j js ih =>
    obtain ⟨here, placed⟩ := List.forall_mem_cons.mp placed
    have step : (bs.mapM (ev.extendAlong? root j)).map List.flatten =
        some (bs.flatMap (ev.extendAlong root j)) := by
      rw [mapM_eq_some_map fun b hb => extendAlong?_eq plans here (places b hb), Option.map_some,
        List.flatMap_def]
    have places' : ∀ c ∈ bs.flatMap (ev.extendAlong root j), c.length = ev.joins.length := by
      intro c hc
      obtain ⟨b, hb, hc⟩ := List.mem_flatMap.mp hc
      rw [length_of_mem_extendAlong hc, places b hb]
    rw [List.foldlM_cons, step, List.foldl_cons]
    exact ih placed places'

/-- All bindings of a root record are found if the joins are numbered, and have a place for each of
them. -/
theorem expand?_eq (hev : Evaluator.of d s q = .ok ev) (numbered : q.joins.Numbered)
    (root : Record) :
    ev.expand? root = some (ev.expand root) ∧
      ∀ b ∈ ev.expand root, b.length = ev.joins.length := by
  refine foldlM_extendAlong? root (length_plans hev) (fun j hj => ?_) fun b hb => ?_
  · rw [joins_of hev] at hj ⊢
    exact placed_of_numbered numbered hj
  · rw [List.mem_singleton.mp hb, blank, List.length_replicate]

/-! ## Parents -/

/-- When a join is followed, after those before it, the row from which it goes is the root, or a
record to which an earlier join led; or that join has no row since it led nowhere. -/
inductive ParentFound (ev : Evaluator) (root : Record) (before : List JoinNode) (b : Binding)
    (j : JoinNode) : Prop
  | root (parent : j.parent = .root)
  | bound {k : JoinNode} {r : Record} (earlier : k ∈ before) (parent : j.parent = .join k.id)
      (reached : .entity r ∈ ev.reach root k b) (there : b[k.id]? = some (some (.entity r)))
  | absent {k : JoinNode} (earlier : k ∈ before) (parent : j.parent = .join k.id)
      (nowhere : ev.reach root k b = []) (empty : b[k.id]? = some none)

/-- A join to an entity leads to records only. -/
theorem exists_entity_of_mem_reach (hev : Evaluator.of d s q = .ok ev)
    (sound : q.joins.Sound s e) (hj : j ∈ q.joins) {target : String}
    (leads : j.target = .entity target) {row : Row} (h : row ∈ ev.reach root j b) :
    ∃ r, row = .entity r := by
  unfold reach at h
  split at h
  · rw [children_of hev (sound.getElem?_id hj), Dataset.along,
      show j.step.target = .entity target from leads] at h
    dsimp only at h
    split at h
    · obtain ⟨r, _, rfl⟩ := List.mem_map.mp h
      exact ⟨r, rfl⟩
    · cases h
  · cases h

/-- The join from whose rows another one goes is a join to an entity. -/
theorem exists_target_of_parent {joins : Joins} (sound : joins.Sound s e)
    (he : s.entity e.name = .ok e) (hj : j ∈ joins) {k : JoinNode} (hk : k ∈ joins)
    (parent : j.parent = .join k.id) : ∃ target, k.target = .entity target := by
  obtain ⟨_, _, rows⟩ := sound.rowsAt?_parent he (sound.getElem?_id hj)
  rw [parent] at rows
  obtain ⟨k', hk', along⟩ := Option.bind_eq_some_iff.mp rows
  cases (sound.getElem?_id hk).symm.trans hk'
  obtain ⟨a, ha, leads⟩ := Schema.rowsAlong?_eq_some_iff.mp along
  obtain ⟨a', ha', target⟩ := sound.attributeOf he hk'
  cases ha.symm.trans ha'
  unfold Schema.rowsOf? at leads
  unfold Schema.target? at target
  cases hkind : a.kind with
  | scalar | map | collection =>
    rw [hkind] at leads
    cases leads
  | association r =>
    rw [hkind] at target
    obtain ⟨target, _, same⟩ := Option.map_eq_some_iff.mp target
    exact ⟨target.name, same.symm⟩

theorem parentFound (hev : Evaluator.of d s q = .ok ev) (sound : q.joins.Sound s e)
    (he : s.entity e.name = .ok e) {before after : List JoinNode}
    (split : q.joins = before ++ j :: after) (hb : b ∈ ev.expandFrom root before (blank q.joins)) :
    ev.ParentFound root before b j := by
  have hj : q.joins[before.length]? = some j := by
    rw [split, List.getElem?_append_right (Nat.le_refl _), Nat.sub_self, List.getElem?_cons_zero]
  have mem : ∀ k ∈ before, k ∈ q.joins := fun k hk => split ▸ List.mem_append_left _ hk
  have inTurn : InTurn before := by
    have all := inTurn_of_sound sound
    refine ⟨fun k hk => all.proper k (mem k hk), ?_⟩
    have turns := all.turns
    rw [split, List.pairwise_append] at turns
    exact turns.1
  cases hp : j.parent with
  | root => exact .root hp
  | join p =>
    have earlier := (sound.nodes _ j hj).earlier p hp
    obtain ⟨k, hk⟩ : ∃ k, before[p]? = some k := ⟨_, List.getElem?_eq_getElem earlier⟩
    have hk_mem := List.mem_of_getElem? hk
    have hk' : q.joins[p]? = some k := by
      rw [split, List.getElem?_append_left earlier, hk]
    rw [← (sound.nodes p k hk').id] at hp
    have fresh : ∀ k ∈ before, (blank q.joins)[k.id]? = some none :=
      fun k hk => getElem?_blank (sound.getElem?_id (mem k hk))
    obtain ⟨o, ho, place⟩ := ((mem_expandFrom_iff inTurn fresh).mp hb).2 k hk_mem
    unfold options at ho
    split at ho
    · next nowhere =>
      rw [List.mem_singleton.mp ho] at place
      exact .absent hk_mem hp (List.isEmpty_iff.mp nowhere) place
    · obtain ⟨row, reached, rfl⟩ := List.mem_map.mp ho
      obtain ⟨target, leads⟩ :=
        exists_target_of_parent sound he (List.mem_of_getElem? hj) (mem k hk_mem) hp
      obtain ⟨r, rfl⟩ := exists_entity_of_mem_reach hev sound (mem k hk_mem) leads reached
      exact .bound hk_mem hp reached place

/-! ## Evaluation -/

/-- Every number of a join that comes up while a record is tested is that of a join, and no join is
followed before its parent. -/
structure InRange (ev : Evaluator) (q : Selection) (root : Record) : Prop where
  parents : ∀ before j after, ev.joins = before ++ j :: after →
    ∀ b ∈ ev.expandFrom root before (blank ev.joins), ev.ParentFound root before b j
  expand : ev.expand? root = some (ev.expand root)
  values : ∀ b ∈ ev.expand root, ∀ a ∈ q.reads, value? root b a = some (value root b a)

theorem inRange_of_compiled {f : CompiledFilter} {name : String}
    (hev : Evaluator.of d s q = .ok ev) (he : s.entity e.name = .ok e) (compiled : f.Compiled s e)
    (asks : q.Asks name f) (root : Record) : ev.InRange q root := by
  have sound : q.joins.Sound s e := asks.joins ▸ compiled.joins
  have joins := joins_of hev
  obtain ⟨found, places⟩ := expand?_eq hev sound.numbered root
  refine ⟨?_, found, ?_⟩
  · intro before j after split b hb
    rw [joins] at split hb
    exact parentFound hev sound he split hb
  · intro b hb a ha
    have there : a.In q.joins := by
      rw [asks.joins]
      rcases List.mem_append.mp ha with ha | ha
      · cases hp : q.predicate with
        | none =>
          rw [hp] at ha
          cases ha
        | some p =>
          rw [hp] at ha
          obtain ⟨c, hc, ha⟩ := List.mem_flatMap.mp ha
          exact (compiled.leaves p (asks.predicate ▸ hp) c hc).reads a ha
      · exact compiled.reads_groupBy (asks.groupBy ▸ ha)
    have source : ∀ id, a.source = .join id → id < b.length := by
      intro id source
      obtain ⟨kind, hkind, _⟩ := there
      rw [source] at hkind
      obtain ⟨j, hj, _⟩ := Option.map_eq_some_iff.mp hkind
      rw [places b hb, joins]
      exact (List.getElem?_eq_some_iff.mp hj).1
    rw [value?, row?_eq source, value_eq]
    rfl

end Evaluator

end EntityQuery
