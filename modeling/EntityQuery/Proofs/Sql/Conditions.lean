import EntityQuery.Proofs.Filter.Compilation
import EntityQuery.Sql.Condition

/-!
# Conditions of compiled predicates

**Every compiled predicate has a condition, both of rows and of groups** (`succeeds_ofRow`,
`succeeds_ofGroup`): what its comparisons read has a column in the row where it is read
(`succeeds_columnRef`), whatever the schema is like.
-/

namespace EntityQuery.Sql

/-- An attribute that is there has a column. -/
theorem succeeds_columnRef {s : Schema} {root : Entity} {joins : Joins} {a : AttrRef}
    (hroot : s.entity root.name = .ok root) (sound : joins.Sound s root) (h : a.In joins) :
    Succeeds (columnRef s joins a) := by
  obtain ⟨kind, hkind, fits⟩ := h
  obtain ⟨source, column⟩ := a
  -- A column of a map or a collection is read in the row of a join that leads to one.
  have element (target : JoinTarget) (hkind : joins.kindOf? source = some (some target)) :
      ∃ id j a, source = .join id ∧ joins[id]? = some j ∧
        s.attributeOf j.owner j.attr = .ok a ∧ s.target? a = some target := by
    cases source with
    | root => cases hkind
    | join id =>
      obtain ⟨j, hj, htarget⟩ := Option.map_eq_some_iff.mp hkind
      cases htarget
      obtain ⟨a, ha, ht⟩ := sound.attributeOf hroot hj
      exact ⟨id, j, a, rfl, hj, ha, ht⟩
  rcases Column.kind_of_fits fits with ⟨name, label, rfl⟩ | ⟨hc, rfl⟩ | ⟨rfl, rfl⟩
  · exact succeeds_ok _
  · obtain ⟨id, j, a, rfl, hj, ha, ht⟩ := element _ hkind
    obtain ⟨t, ht⟩ := Schema.target?_eq_map_iff.mp ht
    rcases hc with rfl | rfl
    · exact ⟨⟨.join id, t.keyColumn⟩, by simp [columnRef, hj, elementColumn, ha, ht]; rfl⟩
    · exact ⟨⟨.join id, t.valueColumn⟩, by simp [columnRef, hj, elementColumn, ha, ht]; rfl⟩
  · obtain ⟨id, j, a, rfl, hj, ha, ht⟩ := element _ hkind
    obtain ⟨t, ht⟩ := Schema.target?_eq_collection_iff.mp ht
    exact ⟨⟨.join id, t.valueColumn⟩, by simp [columnRef, hj, elementColumn, ha, ht]; rfl⟩

variable {s : Schema} {root : Entity} {joins : Joins}

theorem succeeds_ofOperand (hroot : s.entity root.name = .ok root) (sound : joins.Sound s root)
    {o : Operand} (reads : ∀ a, o.reads? = some a → a.In joins) :
    Succeeds (Term.ofOperand s joins o) := by
  cases o with
  | attr a | aggregate _ a =>
    unfold Term.ofOperand
    rw [succeeds_bind_of_forall fun _ _ => succeeds_pure _]
    exact succeeds_columnRef hroot sound (reads a rfl)
  | literal v | list vs | none => exact succeeds_ok _

theorem succeeds_pattern (hroot : s.entity root.name = .ok root) (sound : joins.Sound s root)
    {operator : Operator} {o : Operand} (reads : ∀ a, o.reads? = some a → a.In joins) :
    Succeeds (Pattern.ofOperand s joins operator o) := by
  unfold Pattern.ofOperand
  split
  · exact succeeds_ok _
  · rw [succeeds_bind_of_forall fun _ _ => succeeds_pure _]
    exact succeeds_ofOperand hroot sound reads

namespace Condition

theorem succeeds_ofComparison (hroot : s.entity root.name = .ok root)
    (sound : joins.Sound s root) {c : Comparison} (compiled : c.Compiled joins) :
    Succeeds (ofComparison s joins c) := by
  have reads_left : ∀ a, c.left.reads? = some a → a.In joins := fun a ha =>
    compiled.reads a (List.mem_append_left _ (Option.mem_toList.mpr ha))
  have reads_right : ∀ a, c.right.reads? = some a → a.In joins := fun a ha =>
    compiled.reads a (List.mem_append_right _ (Option.mem_toList.mpr ha))
  obtain ⟨left, hleft⟩ := succeeds_ofOperand hroot sound reads_left
  obtain ⟨right, hright⟩ := succeeds_ofOperand hroot sound reads_right
  obtain ⟨pattern, hpattern⟩ := succeeds_pattern hroot sound reads_right
  unfold ofComparison
  rw [succeeds_bind_of_forall fun _ _ => succeeds_pure _]
  unfold ofPositive
  rw [hleft, hright]
  simp only [ok_bind]
  split
  · exact succeeds_pure _
  · exact succeeds_pure _
  · exact succeeds_pure _
  · rw [hpattern]
    split
    · exact succeeds_pure _
    · split <;> exact succeeds_pure _

variable {p : Predicate}

theorem succeeds_ofRow (hroot : s.entity root.name = .ok root) (sound : joins.Sound s root)
    (compiled : ∀ c ∈ p.leaves, c.Compiled joins) : Succeeds (ofRow s joins p) := by
  induction p with
  | and a b iha ihb | or a b iha ihb =>
    obtain ⟨ca, ha⟩ := iha fun c hc => compiled c (List.mem_append_left _ hc)
    obtain ⟨cb, hb⟩ := ihb fun c hc => compiled c (List.mem_append_right _ hc)
    simp [ofRow, ha, hb]
  | not a ih =>
    obtain ⟨ca, ha⟩ := ih compiled
    simp [ofRow, ha]
  | leaf c => exact succeeds_ofComparison hroot sound (compiled c (List.mem_singleton.mpr rfl))

theorem succeeds_ofGroup (hroot : s.entity root.name = .ok root) (sound : joins.Sound s root)
    (compiled : ∀ c ∈ p.leaves, c.Compiled joins) : Succeeds (ofGroup s joins p) := by
  induction p with
  | and a b iha ihb | or a b iha ihb =>
    obtain ⟨row, hrow⟩ := succeeds_ofRow hroot sound compiled
    obtain ⟨ca, ha⟩ := iha fun c hc => compiled c (List.mem_append_left _ hc)
    obtain ⟨cb, hb⟩ := ihb fun c hc => compiled c (List.mem_append_right _ hc)
    unfold ofGroup
    split
    · simp [ha, hb]
    · simp [hrow]
  | not a ih =>
    obtain ⟨row, hrow⟩ := succeeds_ofRow hroot sound compiled
    obtain ⟨ca, ha⟩ := ih compiled
    unfold ofGroup
    split
    · simp [ha]
    · simp [hrow]
  | leaf c =>
    obtain ⟨row, hrow⟩ := succeeds_ofRow hroot sound compiled
    unfold ofGroup
    split
    · exact succeeds_ofComparison hroot sound (compiled c (List.mem_singleton.mpr rfl))
    · simp [hrow]

end Condition

end EntityQuery.Sql
