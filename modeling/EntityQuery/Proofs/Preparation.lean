import EntityQuery.Dataset.Store
import EntityQuery.Proofs.Sql.Conditions
import EntityQuery.Request
import EntityQuery.Sql.Statement
import Mathlib

/-!
# What becomes of a prepared request

Preparing a request resolves the paths of its filter but does not look for the links of the
associations that they go along. Whether the request can then be answered is therefore decided by
its joins alone (`prepared_request_succeeds_iff`): **a dataset needs the link of every association
among them** (`JoinNode.Followable`), **a statement needs for a link by identifier also the column
in which the identifier is kept** (`JoinNode.Renderable`).

Everything else that is looked up on the way has been found when the request was prepared. That is
what the lemmas `succeeds_restriction_iff`, `succeeds_select_iff` and `succeeds_matching_iff` say of
the single functions, `Selection.Asks` being what preparation guarantees of what is selected and of
what is counted.

Two schemas show both sides: where the association leads back the request can be answered
(`prepared_request_succeeds_twoSided`), and where it does not, the request is prepared all the same
and nothing can answer it (`prepared_request_fails_oneSided`).
-/

namespace EntityQuery

/-- The rows to which the join leads can be found. -/
def JoinNode.Followable (s : Schema) (j : JoinNode) : Prop :=
  ∀ target, j.target = .entity target → Succeeds (s.link j.owner j.attr)

/-- The join can be written in a statement. -/
def JoinNode.Renderable (s : Schema) (j : JoinNode) : Prop :=
  ∀ target, j.target = .entity target → ∃ l, s.link j.owner j.attr = .ok l ∧
    (l = .identity → ∃ a column, s.attributeOf j.owner j.attr = .ok a ∧
      a.foreignKeyColumn? = some column)

theorem JoinNode.Renderable.followable {s : Schema} {j : JoinNode} (h : j.Renderable s) :
    j.Followable s := by
  intro target ht
  obtain ⟨l, hl, _⟩ := h target ht
  exact ⟨l, hl⟩

/-! ## Joins -/

section

variable {s : Schema} {root : Entity} {joins : Joins} {i : Nat} {j : JoinNode}

theorem succeeds_plan_iff (hroot : s.entity root.name = .ok root) (sound : joins.Sound s root)
    (hj : joins[i]? = some j) : Succeeds (JoinPlan.of s j) ↔ j.Followable s := by
  obtain ⟨a, ha, target⟩ := sound.attributeOf hroot hj
  unfold JoinPlan.of JoinNode.Followable
  rw [ha, ok_bind]
  cases ht : j.target with
  | entity name =>
    dsimp only
    rw [succeeds_bind_of_forall fun _ _ => succeeds_pure _]
    constructor
    · exact fun h _ _ => h
    · exact fun h => h name rfl
  | map =>
    obtain ⟨t, hk⟩ := Schema.target?_eq_map_iff.mp (ht ▸ target)
    simp [hk]
  | collection =>
    obtain ⟨t, hk⟩ := Schema.target?_eq_collection_iff.mp (ht ▸ target)
    simp [hk]

theorem succeeds_joinClauses_iff (hroot : s.entity root.name = .ok root)
    (sound : joins.Sound s root) (hj : joins[i]? = some j) :
    Succeeds (Sql.joinClauses s j) ↔ j.Renderable s := by
  obtain ⟨a, ha, target⟩ := sound.attributeOf hroot hj
  obtain ⟨owner, howner, _⟩ := Schema.attributeOf_eq_ok_iff.mp ha
  unfold Sql.joinClauses JoinNode.Renderable
  rw [howner, ha, ok_bind, ok_bind]
  dsimp only
  cases ht : j.target with
  | entity name =>
    obtain ⟨r, e, hk, he, _⟩ := Schema.target?_eq_entity_iff.mp (ht ▸ target)
    rw [hk]
    dsimp only
    rw [Schema.entity_eq_ok_iff.mpr he, ok_bind, succeeds_bind_iff]
    -- The link is the one thing that has not been looked up while the path was resolved.
    constructor
    · rintro ⟨l, hl, h⟩ _ _
      refine ⟨l, hl, ?_⟩
      rintro rfl
      dsimp only at h
      split at h
      · exact absurd h (not_succeeds_error _)
      · next column hcolumn => exact ⟨a, column, rfl, hcolumn⟩
    · intro h
      obtain ⟨l, hl, column⟩ := h name rfl
      refine ⟨l, hl, ?_⟩
      cases l with
      | identity =>
        obtain ⟨a', column, ha', hcolumn⟩ := column rfl
        cases ha'
        simp [hcolumn]
      | foreignKey _ _ => exact succeeds_pure _
      | joinTable _ => exact succeeds_pure _
  | map =>
    obtain ⟨t, hk⟩ := Schema.target?_eq_map_iff.mp (ht ▸ target)
    simp [hk]
  | collection =>
    obtain ⟨t, hk⟩ := Schema.target?_eq_collection_iff.mp (ht ▸ target)
    simp [hk]

end

/-! ## Selections -/

/-- The selection asks for the records of an entity that a filter keeps, in any order and part. -/
structure Selection.Asks (q : Selection) (name : String) (f : CompiledFilter) : Prop where
  entity : q.entity = name
  joins : q.joins = f.joins
  predicate : q.predicate = f.predicate
  aggregate : q.aggregate = f.aggregate
  groupBy : q.groupBy = f.groupBy

theorem CompiledFilter.Compiled.reads_groupBy {s : Schema} {root : Entity} {f : CompiledFilter}
    (compiled : f.Compiled s root) {a : AttrRef} (ha : a ∈ f.groupBy) : a.In f.joins := by
  obtain ⟨p, hp, c, hc, _, shared⟩ := compiled.shared_of_mem_groupBy ha
  exact (compiled.leaves p hp c hc).reads a (Comparison.mem_reads_of_attr? shared)

section

variable {s : Schema} {root : Entity} {f : CompiledFilter} {q : Selection}

/-- Without anything to join, every join can be written. -/
theorem succeeds_restriction_iff (hroot : s.entity root.name = .ok root)
    (compiled : f.Compiled s root) (asks : q.Asks root.name f) :
    Succeeds (Sql.restriction s root q) ↔ ∀ j ∈ q.joins, j.Renderable s := by
  unfold Sql.restriction
  cases hp : q.predicate with
  | none =>
    have nothing : q.joins = [] := asks.joins.trans (compiled.trivial (asks.predicate ▸ hp))
    simp [nothing]
  | some p =>
    have leaves := compiled.leaves p (asks.predicate ▸ hp)
    have sound := compiled.joins
    rw [← asks.joins] at leaves sound
    obtain ⟨row, hrow⟩ := Sql.Condition.succeeds_ofRow hroot sound leaves
    obtain ⟨group, hgroup⟩ := Sql.Condition.succeeds_ofGroup hroot sound leaves
    dsimp only
    split
    -- Without joins the condition stands by itself, else the joins come first.
    · next simple =>
      have nothing : q.joins = [] := by
        simp only [Selection.needsSubquery, Bool.not_eq_true', Bool.or_eq_false_iff,
          Bool.not_eq_false', List.isEmpty_iff] at simple
        exact simple.2
      rw [hrow]
      simp [nothing]
    · rw [succeeds_bind_of_forall, succeeds_mapM_iff]
      · refine forall₂_congr fun j hj => ?_
        obtain ⟨i, hi⟩ := List.mem_iff_getElem?.mp hj
        exact succeeds_joinClauses_iff hroot sound hi
      · intro clauses _
        split
        · have columns : Succeeds (q.groupBy.mapM (Sql.columnRef s q.joins)) := by
            rw [succeeds_mapM_iff]
            intro a ha
            refine Sql.succeeds_columnRef hroot sound ?_
            rw [asks.joins]
            exact compiled.reads_groupBy (asks.groupBy ▸ ha)
          obtain ⟨columns, hcolumns⟩ := columns
          simp [hcolumns, hgroup]
        · simp [hrow]

theorem succeeds_select_iff (closed : s.Closed) (hroot : s.entity root.name = .ok root)
    (compiled : f.Compiled s root) (asks : q.Asks root.name f) :
    Succeeds (Sql.Statement.select s q) ↔ ∀ j ∈ q.joins, j.Renderable s := by
  obtain ⟨projection, hprojection⟩ := closed.succeeds_projection hroot
  unfold Sql.Statement.select Sql.outputColumns
  rw [asks.entity, hroot, ok_bind, hprojection, ok_bind]
  rw [← succeeds_restriction_iff hroot compiled asks]
  exact succeeds_bind_of_forall fun _ _ => succeeds_pure _

theorem succeeds_count_iff (hroot : s.entity root.name = .ok root)
    (compiled : f.Compiled s root) (asks : q.Asks root.name f) :
    Succeeds (Sql.Statement.count s q) ↔ ∀ j ∈ q.joins, j.Renderable s := by
  unfold Sql.Statement.count
  rw [asks.entity, hroot, ok_bind, ← succeeds_restriction_iff hroot compiled asks]
  exact succeeds_bind_of_forall fun _ _ => succeeds_pure _

/-- The statement that selects and the one that counts keep the same rows. -/
theorem Sql.Statement.restriction_of_built {name : String} {st : Sql.Statement}
    (hroot : s.entity name = .ok root) (entity : q.entity = name)
    (built : Sql.Statement.select s q = .ok st ∨ Sql.Statement.count s q = .ok st) :
    Sql.restriction s root q = .ok st.restriction := by
  rcases built with built | built
  · obtain ⟨e, he, built⟩ := bind_eq_ok.mp built
    rw [entity, hroot] at he
    cases he
    obtain ⟨_, _, built⟩ := bind_eq_ok.mp built
    obtain ⟨r, hr, built⟩ := bind_eq_ok.mp built
    cases built
    exact hr
  · obtain ⟨e, he, built⟩ := bind_eq_ok.mp built
    rw [entity, hroot] at he
    cases he
    obtain ⟨r, hr, built⟩ := bind_eq_ok.mp built
    cases built
    exact hr

/-- A dataset finds the records of a selection, whatever it holds. -/
theorem succeeds_matching_iff (hroot : s.entity root.name = .ok root)
    (compiled : f.Compiled s root) (asks : q.Asks root.name f) (d : Dataset) :
    Succeeds (d.matching s q) ↔ ∀ j ∈ q.joins, j.Followable s := by
  unfold Dataset.matching Evaluator.of
  rw [asks.entity, hroot, ok_bind, succeeds_bind_of_forall fun _ _ => succeeds_pure _,
    succeeds_bind_of_forall fun _ _ => succeeds_pure _, succeeds_mapM_iff]
  refine forall₂_congr fun j hj => ?_
  obtain ⟨i, hi⟩ := List.mem_iff_getElem?.mp hj
  exact succeeds_plan_iff hroot (asks.joins ▸ compiled.joins) hi

theorem succeeds_datasetSelect_iff (hroot : s.entity root.name = .ok root)
    (compiled : f.Compiled s root) (asks : q.Asks root.name f) (d : Dataset) :
    Succeeds (d.select s q) ↔ ∀ j ∈ q.joins, j.Followable s := by
  rw [← succeeds_matching_iff hroot compiled asks d]
  exact succeeds_bind_of_forall fun _ _ => succeeds_pure _

theorem succeeds_datasetCount_iff (hroot : s.entity root.name = .ok root)
    (compiled : f.Compiled s root) (asks : q.Asks root.name f) (d : Dataset) :
    Succeeds (d.count s q) ↔ ∀ j ∈ q.joins, j.Followable s := by
  rw [← succeeds_matching_iff hroot compiled asks d]
  exact succeeds_bind_of_forall fun _ _ => succeeds_pure _

end

/-! ## Prepared requests -/

/-- What is selected and what is counted are the records that one compiled filter keeps. -/
theorem Request.prepare_asks {s : Schema} {c : Settings} {r : Request} {p : Prepared}
    (h : r.prepare s c = .ok p) :
    ∃ root f, s.entity root.name = .ok root ∧ f.Compiled s root ∧
      p.select.Asks root.name f ∧ ∀ q, p.count = some q → q.Asks root.name f ∧
        q.joins = p.select.joins := by
  unfold prepare at h
  simp only [bind_eq_ok, pure_eq_ok] at h
  obtain ⟨_, _, f, hf, plan, _, _, _, order, _, rfl⟩ := h
  obtain ⟨root, hroot, compiled⟩ := Schema.compileFilter_compiled hf
  have hname := Schema.name_of_entity hroot
  refine ⟨root, f, hname ▸ hroot, compiled, ⟨hname.symm, rfl, rfl, rfl, rfl⟩, ?_⟩
  intro q hq
  dsimp only at hq
  split at hq
  · cases hq
    exact ⟨⟨hname.symm, rfl, rfl, rfl, rfl⟩, rfl⟩
  · cases hq

/-- **What becomes of a prepared request is decided by its joins.** It gives statements exactly if
each of its joins can be written, and a dataset answers it, whatever it holds, exactly if each of
its joins can be followed. -/
theorem prepared_request_succeeds_iff {entities : List EntityDeclaration} {s : Schema}
    {c : Settings} {r : Request} {p : Prepared} (declared : Schema.declare entities = .ok s)
    (prepared : r.prepare s c = .ok p) :
    (Succeeds (Sql.Statement.select s p.select) ↔ ∀ j ∈ p.select.joins, j.Renderable s) ∧
    (∀ q, p.count = some q →
      (Succeeds (Sql.Statement.count s q) ↔ ∀ j ∈ p.select.joins, j.Renderable s)) ∧
    (∀ d : Dataset, Succeeds (d.select s p.select) ↔ ∀ j ∈ p.select.joins, j.Followable s) ∧
    (∀ (d : Dataset) (q : Selection), q = p.select ∨ p.count = some q →
      (Succeeds (d.count s q) ↔ ∀ j ∈ p.select.joins, j.Followable s)) := by
  obtain ⟨root, f, hroot, compiled, select, count⟩ := Request.prepare_asks prepared
  refine ⟨?_, ?_, ?_, ?_⟩
  · exact succeeds_select_iff (Schema.closed_of_declare declared) hroot compiled select
  · intro q hq
    obtain ⟨asks, joins⟩ := count q hq
    rw [← joins]
    exact succeeds_count_iff hroot compiled asks
  · exact succeeds_datasetSelect_iff hroot compiled select
  · rintro d q (rfl | hq)
    · exact succeeds_datasetCount_iff hroot compiled select d
    · obtain ⟨asks, joins⟩ := count q hq
      rw [← joins]
      exact succeeds_datasetCount_iff hroot compiled asks d

/-! ### Associations without a way back -/

namespace OneSided

/-- An association to many, to which the target has no association that leads back. -/
def entities : List EntityDeclaration :=
  [⟨"A", "a", [.id "id" .integer, .association "bs" .oneToMany "B"]⟩,
    ⟨"B", "b", [.id "id" .integer]⟩]

def schema : Schema :=
  ⟨[⟨"A", "a", "id",
      [⟨"id", "id", false, .scalar .integer⟩,
        ⟨"bs", "bs", true, .association ⟨.oneToMany, "B", none, false, none, none⟩⟩]⟩,
    ⟨"B", "b", "id", [⟨"id", "id", false, .scalar .integer⟩]⟩]⟩

def request : Request := ⟨"A", "bs.id:1", .ofSettings .default, ""⟩

/-- What the request selects, by a join along the association. -/
def selection : Selection where
  entity := "A"
  joins := [⟨0, .root, "A", "bs", "bs", .entity "B"⟩]
  predicate := some (.leaf
    ⟨.attr ⟨.join 0, .attribute "id" "id"⟩, .eq, false, false, .literal (.int 1)⟩)
  aggregate := false
  groupBy := []
  order := []
  limit := some 20
  offset := 0

def prepared : Prepared := ⟨selection, some selection.forCount, ⟨[]⟩⟩

end OneSided

namespace TwoSided

/-- The same association with one that leads back. -/
def entities : List EntityDeclaration :=
  [⟨"A", "a", [.id "id" .integer, .association "bs" .oneToMany "B"]⟩,
    ⟨"B", "b", [.id "id" .integer, .association "a" .manyToOne "A"]⟩]

def schema : Schema :=
  ⟨[⟨"A", "a", "id",
      [⟨"id", "id", false, .scalar .integer⟩,
        ⟨"bs", "bs", true, .association ⟨.oneToMany, "B", none, false, none, none⟩⟩]⟩,
    ⟨"B", "b", "id",
      [⟨"id", "id", false, .scalar .integer⟩,
        ⟨"a", "a_id", true, .association ⟨.manyToOne, "A", none, true, some "a_id", none⟩⟩]⟩]⟩

/-- The association is rendered through the column of the one that leads back. -/
theorem renderable : ∀ j ∈ OneSided.selection.joins, j.Renderable schema := by
  intro j hj target _
  rw [List.mem_singleton.mp hj]
  exact ⟨.foreignKey "a" "a_id", rfl, nofun⟩

end TwoSided

/-- Where the association leads back, the request can be answered. -/
theorem prepared_request_succeeds_twoSided :
    Succeeds (Sql.Statement.select TwoSided.schema OneSided.selection) ∧
      ∀ d : Dataset, Succeeds (d.select TwoSided.schema OneSided.selection) := by
  have declared : Schema.declare TwoSided.entities = .ok TwoSided.schema := by rfl
  have prepared : OneSided.request.prepare TwoSided.schema .default = .ok OneSided.prepared := by
    cbv
  obtain ⟨statement, _, dataset, _⟩ := prepared_request_succeeds_iff declared prepared
  refine ⟨statement.mpr TwoSided.renderable, fun d => ?_⟩
  exact (dataset d).mpr fun j hj => (TwoSided.renderable j hj).followable

/-- Where it does not, the request is prepared all the same, and then nothing can answer it. -/
theorem prepared_request_fails_oneSided :
    Schema.declare OneSided.entities = .ok OneSided.schema ∧
    OneSided.request.prepare OneSided.schema .default = .ok OneSided.prepared ∧
    Sql.Statement.select OneSided.schema OneSided.prepared.select =
      .error (.missingBackReference "A" "bs") ∧
    ∀ d : Dataset, d.select OneSided.schema OneSided.prepared.select =
      .error (.missingBackReference "A" "bs") := by
  refine ⟨by rfl, by cbv, by rfl, fun d => ?_⟩
  rfl

end EntityQuery
