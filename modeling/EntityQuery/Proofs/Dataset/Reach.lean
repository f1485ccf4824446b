import EntityQuery.Proofs.Dataset.Expansion
import EntityQuery.Proofs.Outcome
import EntityQuery.Proofs.Path.Ways

/-!
# What a path reaches

The rows that a path reaches from a record are found by taking its steps, without regard to any
joins (`reachedBy`). **The bindings of the record read these rows at the end of the way of the path
and no others, whatever other joins there are** (`mem_filterMap_expand_iff`); and they read each of
them just as often and in the same order, if none of the other joins leads to several rows
(`filterMap_expand`). Followed by themselves, the joins of a way read what its steps reach
(`filterMap_way`); the joins beside it are then added after those on it.
-/

namespace EntityQuery

namespace Dataset

/-- The rows to which a step leads from a record. -/
def along (d : Dataset) (s : Schema) (step : Step) (parent : Record) : List Row :=
  match step.target with
  | .entity target =>
    match s.link step.owner step.attr with
    | .ok l => (d.targetsOf target step.attr parent l).map .entity
    | .error _ => []
  | .map | .collection =>
    match s.attributeOf step.owner step.attr with
    | .ok ⟨_, _, _, .map t⟩ =>
      ((d.elementRows t.table).filter (·.owner.key = parent.key)).map .element
    | .ok ⟨_, _, _, .collection t⟩ =>
      ((d.elementRows t.table).filter (·.owner.key = parent.key)).map .element
    | _ => []

/-- The rows reached from a row by taking steps. -/
def reached (d : Dataset) (s : Schema) : List Step → Row → List Row
  | [], row => [row]
  | step :: steps, .entity r => (d.along s step r).flatMap (reached d s steps)
  | _ :: _, .element _ => []

/-- The rows reached from a record by following a path. -/
def reachedBy (d : Dataset) (s : Schema) (e : Entity) (path : String) (root : Record) : List Row :=
  d.reached s (s.route path e "" (Path.segments path)).1 (.entity root)

end Dataset

/-- The value of a column of a row. -/
def Row.read : Row → Column → Value
  | .entity r, .attribute name _ => r.field name
  | .element e, .mapKey => e.key
  | .element e, .mapValue => e.value
  | .element e, .element => e.value
  | _, _ => .null

/-- The value of a column of a row, unless it is null. -/
def Row.present? (r : Row) (column : Column) : Option Value :=
  if (r.read column).isNull then none else some (r.read column)

namespace Evaluator

variable {d : Dataset} {s : Schema} {q : Selection} {ev : Evaluator} {root : Record} {e : Entity}
  {source destination : Source} {way : List JoinNode}

/-- The value of an attribute is read of the row at its source. -/
theorem value_eq (b : Binding) (a : AttrRef) :
    value root b a = ((row root b a.source).map (·.read a.column)).getD .null := by
  unfold value Row.read
  cases row root b a.source with
  | none => rfl
  | some r => cases r <;> cases a.column <;> rfl

/-- A join leads to the rows of its step. -/
theorem children_of (hev : Evaluator.of d s q = .ok ev) {i : Nat} {j : JoinNode}
    (hj : q.joins[i]? = some j) (parent : Record) :
    ev.children parent i = d.along s j.step parent := by
  obtain ⟨plans, hplans, h⟩ := bind_eq_ok.mp hev
  cases h
  obtain ⟨hi, rfl⟩ := List.getElem?_eq_some_iff.mp hj
  have hplans := mapM_eq_ok.mp hplans
  have hi' : i < plans.length := hplans.length_eq ▸ hi
  have hplan := hplans.get hi hi'
  rw [List.get_eq_getElem, List.get_eq_getElem] at hplan
  have hget : plans[i]? = some plans[i] := List.getElem?_eq_getElem hi'
  generalize plans[i] = plan at hplan hget
  generalize q.joins[i] = j at hplan hj
  unfold children Dataset.along JoinNode.step
  dsimp only
  rw [hj, hget]
  obtain ⟨a, ha, hplan⟩ := bind_eq_ok.mp hplan
  rw [ha]
  obtain ⟨name, column, nullable, kind⟩ := a
  cases htarget : j.target with
  | entity target =>
    rw [htarget] at hplan
    obtain ⟨l, hl, hplan⟩ := bind_eq_ok.mp hplan
    rw [hl]
    cases hplan
    rfl
  | map | collection =>
    rw [htarget] at hplan
    cases kind <;> cases hplan <;> rfl

/-! ## Along the way -/

/-- Before any join is followed no join has a row. -/
def blank (joins : Joins) : Binding := List.replicate joins.length none

theorem getElem?_blank {joins : Joins} {i : Nat} {j : JoinNode} (hj : joins[i]? = some j) :
    (blank joins)[i]? = some none := by
  rw [blank, List.getElem?_replicate, if_pos (List.getElem?_eq_some_iff.mp hj).1]

theorem inTurn_of_numbered {joins : Joins} (numbered : joins.Numbered) : InTurn joins where
  proper := fun j hj parent =>
    Nat.lt_irrefl j.id (numbered.earlier j.id j j.id (numbered.getElem?_id hj) parent)
  turns := by
    refine List.pairwise_iff_getElem.mpr fun i k hi hk hik => ?_
    have here := List.getElem?_eq_getElem hi
    rw [numbered.id i _ here, numbered.id k _ (List.getElem?_eq_getElem hk)]
    exact ⟨Nat.ne_of_lt hik, fun parent => Nat.lt_asymm hik (numbered.earlier i _ k here parent)⟩

theorem inTurn_of_sound {joins : Joins} (sound : joins.Sound s e) : InTurn joins :=
  inTurn_of_numbered sound.numbered

theorem joins_of (hev : Evaluator.of d s q = .ok ev) : ev.joins = q.joins := by
  obtain ⟨plans, _, h⟩ := bind_eq_ok.mp hev
  cases h
  rfl

theorem flatMap_options {γ : Type} (f : Row → List γ) (j : JoinNode) (b : Binding) :
    (ev.options root j b).flatMap (fun o => o.toList.flatMap f) =
      (ev.reach root j b).flatMap f := by
  unfold options
  split
  · next none => rw [List.isEmpty_iff.mp none]; rfl
  · simp [List.flatMap_map]

/-- Followed by themselves, the joins of a way read at its end the rows that its steps reach. -/
theorem filterMap_way (hev : Evaluator.of d s q = .ok ev)
    (leads : q.joins.Way source way destination) (inTurn : InTurn way) {b : Binding}
    (fresh : ∀ j ∈ way, b[j.id]? = some none) :
    (ev.expandFrom root way b).filterMap (row root · destination) =
      (row root b source).toList.flatMap (d.reached s (way.map JoinNode.step)) := by
  induction leads generalizing b with
  | here source =>
    cases h : row root b source <;> simp [expandFrom, Dataset.reached, h]
  | @step j rest destination hj _ ih =>
    obtain ⟨freshHere, fresh⟩ := List.forall_mem_cons.mp fresh
    -- Whatever the join is given is the row at which the rest of the way starts.
    have next (o : Option Row) : (ev.expandFrom root rest (assign j.id b o)).filterMap
        (row root · destination) = o.toList.flatMap (d.reached s (rest.map JoinNode.step)) := by
      rw [ih inTurn.of_cons]
      · show (assign j.id b o)[j.id]?.join.toList.flatMap _ = _
        rw [getElem?_assign_self freshHere]
        rfl
      · intro k hk
        rw [getElem?_assign_of_ne (List.rel_of_pairwise_cons inTurn.turns hk).1, fresh k hk]
    simp only [expandFrom, extendAlong_eq, List.flatMap_map, List.filterMap_flatMap, next]
    rw [flatMap_options, reach]
    cases row root b j.parent with
    | none => rfl
    | some r =>
      cases r with
      | entity parent =>
        simp only [children_of hev hj, List.map_cons, Option.toList_some, List.flatMap_singleton]
        rfl
      | element => rfl

/-! ## Among all joins -/

section

variable (hev : Evaluator.of d s q = .ok ev) (sound : q.joins.Sound s e)
  (leads : q.joins.Way .root way destination)

include sound leads

theorem keepsParents_on : KeepsParents (Joins.on way) q.joins := by
  intro j hj k hk there parent
  rcases leads.parent k (leads.mem_of_on sound hk there) with h | ⟨i, hi, h⟩
  · cases parent.symm.trans h
  · exact leads.on_of_id sound hj hi (Source.join.inj (h.symm.trans parent))

/-- What is read at the end of the way does not depend on the joins beside it. -/
theorem row_assign_of_off {j : JoinNode} (hj : j ∈ q.joins) (off : Joins.on way j = false)
    (b : Binding) (o : Option Row) :
    row root (assign j.id b o) destination = row root b destination := by
  refine row_assign_of_ne (fun same => ?_) b o
  rcases leads.ends with h | ⟨i, hi, h⟩
  · cases h.symm.trans same
  · have there := leads.on_of_id sound hj hi (Source.join.inj (h.symm.trans same))
    rw [off] at there
    cases there

include hev

theorem filterMap_on {γ : Type} (h : Row → Option γ) :
    (ev.expandFrom root (q.joins.filter (Joins.on way)) (blank q.joins)).filterMap
        (fun b => (row root b destination).bind h) =
      (d.reached s (way.map JoinNode.step) (.entity root)).filterMap h := by
  have inTurn := (inTurn_of_sound sound).filter (Joins.on way)
  rw [leads.filter_on sound] at inTurn ⊢
  have rows : (ev.expandFrom root way (blank q.joins)).filterMap (row root · destination) = _ :=
    filterMap_way hev leads inTurn fun j hj => getElem?_blank (leads.mem j hj)
  have start : row root (blank q.joins) .root = some (.entity root) := rfl
  rw [start, Option.toList_some, List.flatMap_singleton] at rows
  rw [← rows, List.filterMap_filterMap]

/-- The bindings of a record read at the end of the way what its steps reach, and nothing else. -/
theorem mem_filterMap_expand_iff {γ : Type} {h : Row → Option γ} {x : γ} :
    x ∈ (ev.expand root).filterMap (fun b => (row root b destination).bind h) ↔
      x ∈ (d.reached s (way.map JoinNode.step) (.entity root)).filterMap h := by
  rw [expand_eq, joins_of hev, ← filterMap_on hev sound leads]
  refine mem_filterMap_expandFrom_iff (inTurn_of_sound sound) (keepsParents_on sound leads) ?_
  intro j hj off b o
  rw [row_assign_of_off sound leads hj off]

/-- As long as no join beside the way leads to several rows where something is read, each row that
the steps reach is read once, and in its order. -/
theorem filterMap_expand {γ : Type} {h : Row → Option γ}
    (single : ∀ b ∈ ev.expand root, ((row root b destination).bind h).isSome →
      ∀ j ∈ q.joins, Joins.on way j = false → (ev.reach root j b).length ≤ 1) :
    (ev.expand root).filterMap (fun b => (row root b destination).bind h) =
      (d.reached s (way.map JoinNode.step) (.entity root)).filterMap h := by
  rw [expand_eq, joins_of hev] at single ⊢
  rw [← filterMap_on hev sound leads]
  refine filterMap_expandFrom (inTurn_of_sound sound) (keepsParents_on sound leads) ?_ single
  intro j hj off b o
  rw [row_assign_of_off sound leads hj off]

/-- Each row that the steps reach is read once or several times, and once throughout exactly if no
join beside the way leads to several rows where something is read. -/
theorem filterMap_expand_repeats {γ : Type} (h : Row → Option γ) :
    ∃ repeated : List (Nat × γ),
      repeated.map Prod.snd =
        (d.reached s (way.map JoinNode.step) (.entity root)).filterMap h ∧
      ((ev.expand root).filterMap fun b => (row root b destination).bind h).Perm
        (repeated.flatMap fun p => List.replicate p.1 p.2) ∧
      (∀ p ∈ repeated, 0 < p.1) ∧
      ((∀ p ∈ repeated, p.1 = 1) ↔
        ∀ b ∈ ev.expand root, ((row root b destination).bind h).isSome → ∀ j ∈ q.joins,
          Joins.on way j = false → (ev.reach root j b).length ≤ 1) := by
  rw [expand_eq, joins_of hev, ← filterMap_on hev sound leads]
  refine filterMap_expandFrom_repeats (inTurn_of_sound sound) (keepsParents_on sound leads) ?_ _
  intro j hj off b o
  rw [row_assign_of_off sound leads hj off]

end

end Evaluator

end EntityQuery
