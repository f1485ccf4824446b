import EntityQuery.Proofs.Filter.Predicate
import EntityQuery.Proofs.Preparation
import EntityQuery.Sql.Statement

/-!
# The forms of conditions

Which condition stands for a comparison (`Positive`, `Single`), for a predicate of rows (`OfRow`)
and for a predicate of groups (`OfGroup`), and how it restricts the rows of a statement
(`Restricts`), as evidence with a case for each form. What holds of the conditions of predicates can
be proved by induction on this evidence then, without the definitions that make the conditions;
these are opened for it once (`restricts_of_ok` and the lemmas before it).

The first thing that is proved so is where the terms of a condition come from: each is that of a
side of a comparison of the predicate (`OfRow.side`, `OfGroup.side`).
-/

namespace EntityQuery.Sql

/-! ## The terms of a condition -/

/-- The column that a term reads, by itself or in a function. -/
def Term.column? : Term → Option ColumnRef
  | column c => some c
  | aggregate _ c => some c
  | parameter _ | null => none

/-- Whether the term applies a function. -/
def Term.isCall : Term → Bool
  | aggregate _ _ => true
  | _ => false

/-- The terms in a pattern. -/
def Pattern.terms : Pattern → List Term
  | text _ => []
  | term t _ _ => [t]

namespace Condition

/-- The terms in the text of a condition, from left to right. -/
def terms : Condition → List Term
  | isNull t => [t]
  | never _ => []
  | anyOf t array => [t, array]
  | notDistinct a b => [a, b]
  | like _ t pattern => t :: pattern.terms
  | compare _ a b => [a, b]
  | not c => c.terms
  | and a b => a.terms ++ b.terms
  | or a b => a.terms ++ b.terms
  | someRow c => c.terms

/-- The terms that do not stand inside a condition of some row. -/
def outerTerms : Condition → List Term
  | not c => c.outerTerms
  | and a b => a.outerTerms ++ b.outerTerms
  | or a b => a.outerTerms ++ b.outerTerms
  | someRow _ => []
  | c => c.terms

/-- The conditions that are to hold of some row. -/
def rowConditions : Condition → List Condition
  | not c => c.rowConditions
  | and a b => a.rowConditions ++ b.rowConditions
  | or a b => a.rowConditions ++ b.rowConditions
  | someRow c => [c]
  | _ => []

/-- A condition is one of rows if none of it is about some row of a group. -/
def OfRows (c : Condition) : Prop := c.rowConditions = [] ∧ c.outerTerms = c.terms

theorem OfRows.connect {a b : Condition} (ha : a.OfRows) (hb : b.OfRows) :
    (and a b).OfRows ∧ (or a b).OfRows := by
  have conditions : a.rowConditions ++ b.rowConditions = [] := by rw [ha.1, hb.1]; rfl
  have outer : a.outerTerms ++ b.outerTerms = a.terms ++ b.terms := by rw [ha.2, hb.2]
  exact ⟨⟨conditions, outer⟩, conditions, outer⟩

end Condition

/-! ## Evidence -/

section

variable (s : Schema) (joins : Joins)

/-- The condition stands for the comparison, leaving aside whether it is negated. -/
inductive Positive (c : Comparison) : Condition → Prop where
  | isNull {t : Term} (op : c.operator = .isNull) (left : Term.ofOperand s joins c.left = .ok t) :
      Positive c (.isNull t)
  | never {t : Term} (op : c.operator = .isIn) (nothing : c.right = .list [])
      (left : Term.ofOperand s joins c.left = .ok t) : Positive c (.never t)
  | anyOf {t array : Term} (op : c.operator = .isIn) (something : c.right ≠ .list [])
      (left : Term.ofOperand s joins c.left = .ok t)
      (right : Term.ofOperand s joins c.right = .ok array) : Positive c (.anyOf t array)
  | notDistinct {a b : Term} (op : c.operator = .eq)
      (left : Term.ofOperand s joins c.left = .ok a)
      (right : Term.ofOperand s joins c.right = .ok b) : Positive c (.notDistinct a b)
  | like {t : Term} {pattern : Pattern} (op : c.operator.isPattern = true)
      (left : Term.ofOperand s joins c.left = .ok t)
      (right : Pattern.ofOperand s joins c.operator c.right = .ok pattern) :
      Positive c (.like c.operator.ignoresCase t pattern)
  | compare {a b : Term} (notNull : c.operator ≠ .isNull) (notIn : c.operator ≠ .isIn)
      (noPattern : c.operator.isPattern = false) (left : Term.ofOperand s joins c.left = .ok a)
      (right : Term.ofOperand s joins c.right = .ok b) :
      Positive c (.compare (.ofOperator c.operator) a b)

/-- The condition stands for the comparison. -/
inductive Single (c : Comparison) : Condition → Prop where
  | positive {condition : Condition} (plain : c.negate = false)
      (h : Positive s joins c condition) : Single c condition
  | negated {condition : Condition} (negate : c.negate = true)
      (h : Positive s joins c condition) : Single c (.not condition)

/-- The condition is what the predicate sets to a row. -/
inductive OfRow : Predicate → Condition → Prop where
  | leaf {c : Comparison} {condition : Condition} (h : Single s joins c condition) :
      OfRow (.leaf c) condition
  | and {p q : Predicate} {a b : Condition} (left : OfRow p a) (right : OfRow q b) :
      OfRow (.and p q) (.and a b)
  | or {p q : Predicate} {a b : Condition} (left : OfRow p a) (right : OfRow q b) :
      OfRow (.or p q) (.or a b)
  | not {p : Predicate} {a : Condition} (inner : OfRow p a) : OfRow (.not p) (.not a)

/-- The condition is what the predicate sets to a group of rows. -/
inductive OfGroup : Predicate → Condition → Prop where
  | rows {p : Predicate} {a : Condition} (single : p.isAggregate = false)
      (h : OfRow s joins p a) : OfGroup p (.someRow a)
  | leaf {c : Comparison} {condition : Condition} (aggregate : c.isAggregate = true)
      (h : Single s joins c condition) : OfGroup (.leaf c) condition
  | and {p q : Predicate} {a b : Condition} (left : OfGroup p a) (right : OfGroup q b) :
      OfGroup (.and p q) (.and a b)
  | or {p q : Predicate} {a b : Condition} (left : OfGroup p a) (right : OfGroup q b) :
      OfGroup (.or p q) (.or a b)
  | not {p : Predicate} {a : Condition} (inner : OfGroup p a) : OfGroup (.not p) (.not a)

/-- The restriction keeps those rows of an entity that a compiled filter selects. -/
inductive Restricts (root : Entity) (f : CompiledFilter) : Restriction → Prop where
  | all (nothing : f.predicate = none) : Restricts root f .all
  | rows {p : Predicate} {condition : Condition} (something : f.predicate = some p)
      (single : f.aggregate = false) (alone : f.joins = []) (h : OfRow s f.joins p condition) :
      Restricts root f (.rows condition)
  | joined {p : Predicate} {clauses : List (List JoinClause)} {condition : Condition}
      (something : f.predicate = some p) (single : f.aggregate = false)
      (made : f.joins.mapM (joinClauses s) = .ok clauses) (h : OfRow s f.joins p condition) :
      Restricts root f
        (.identifiers ⟨rootId root, root.table, clauses.flatten, none, condition⟩)
  | grouped {p : Predicate} {clauses : List (List JoinClause)} {refs : List ColumnRef}
      {condition : Condition} (something : f.predicate = some p) (aggregate : f.aggregate = true)
      (made : f.joins.mapM (joinClauses s) = .ok clauses)
      (columns : f.groupBy.mapM (columnRef s f.joins) = .ok refs)
      (h : OfGroup s f.joins p condition) :
      Restricts root f (.identifiers
        ⟨rootId root, root.table, clauses.flatten, some (rootId root :: refs), condition⟩)

end

variable {s : Schema} {joins : Joins} {c : Comparison} {p : Predicate} {condition : Condition}
  {t : Term} {a : AttrRef}

theorem positive_of_ok (h : Condition.ofPositive s joins c = .ok condition) :
    Positive s joins c condition := by
  unfold Condition.ofPositive at h
  obtain ⟨left, hleft, h⟩ := bind_eq_ok.mp h
  dsimp only at h
  split at h
  · next op =>
    cases h
    exact .isNull op hleft
  · next op nothing =>
    cases h
    exact .never op nothing hleft
  · next op something =>
    obtain ⟨array, harray, h⟩ := bind_eq_ok.mp h
    cases h
    exact .anyOf op something hleft harray
  · next notNull notIn _ =>
    split at h
    · next safe =>
      obtain ⟨right, hright, h⟩ := bind_eq_ok.mp h
      cases h
      exact .notDistinct safe.1 hleft hright
    · split at h
      · next pattern =>
        obtain ⟨right, hright, h⟩ := bind_eq_ok.mp h
        cases h
        exact .like pattern hleft hright
      · next noPattern =>
        obtain ⟨right, hright, h⟩ := bind_eq_ok.mp h
        cases h
        exact .compare notNull notIn (by simpa using noPattern) hleft hright

theorem single_of_ok (h : Condition.ofComparison s joins c = .ok condition) :
    Single s joins c condition := by
  obtain ⟨positive, hpositive, h⟩ := bind_eq_ok.mp h
  have positive := positive_of_ok hpositive
  cases negate : c.negate with
  | true =>
    rw [negate] at h
    cases h
    exact .negated negate positive
  | false =>
    rw [negate] at h
    cases h
    exact .positive negate positive

theorem ofRow_of_ok (h : Condition.ofRow s joins p = .ok condition) :
    OfRow s joins p condition := by
  induction p generalizing condition with
  | leaf c => exact .leaf (single_of_ok h)
  | not p ih =>
    obtain ⟨a, ha, h⟩ := bind_eq_ok.mp h
    cases h
    exact .not (ih ha)
  | and p q ihp ihq =>
    obtain ⟨a, ha, h⟩ := bind_eq_ok.mp h
    obtain ⟨b, hb, h⟩ := bind_eq_ok.mp h
    cases h
    exact .and (ihp ha) (ihq hb)
  | or p q ihp ihq =>
    obtain ⟨a, ha, h⟩ := bind_eq_ok.mp h
    obtain ⟨b, hb, h⟩ := bind_eq_ok.mp h
    cases h
    exact .or (ihp ha) (ihq hb)

theorem ofGroup_of_ok (h : Condition.ofGroup s joins p = .ok condition) :
    OfGroup s joins p condition := by
  induction p generalizing condition with
  | leaf c =>
    unfold Condition.ofGroup at h
    split at h
    · next aggregate => exact .leaf aggregate (single_of_ok h)
    · next single =>
      obtain ⟨a, ha, h⟩ := bind_eq_ok.mp h
      cases h
      exact .rows (by simpa using single) (ofRow_of_ok ha)
  | not p ih =>
    unfold Condition.ofGroup at h
    split at h
    · obtain ⟨a, ha, h⟩ := bind_eq_ok.mp h
      cases h
      exact .not (ih ha)
    · next single =>
      obtain ⟨a, ha, h⟩ := bind_eq_ok.mp h
      cases h
      exact .rows (by simpa using single) (ofRow_of_ok ha)
  | and p q ihp ihq =>
    unfold Condition.ofGroup at h
    split at h
    · obtain ⟨a, ha, h⟩ := bind_eq_ok.mp h
      obtain ⟨b, hb, h⟩ := bind_eq_ok.mp h
      cases h
      exact .and (ihp ha) (ihq hb)
    · next single =>
      obtain ⟨a, ha, h⟩ := bind_eq_ok.mp h
      cases h
      exact .rows (by simpa using single) (ofRow_of_ok ha)
  | or p q ihp ihq =>
    unfold Condition.ofGroup at h
    split at h
    · obtain ⟨a, ha, h⟩ := bind_eq_ok.mp h
      obtain ⟨b, hb, h⟩ := bind_eq_ok.mp h
      cases h
      exact .or (ihp ha) (ihq hb)
    · next single =>
      obtain ⟨a, ha, h⟩ := bind_eq_ok.mp h
      cases h
      exact .rows (by simpa using single) (ofRow_of_ok ha)

theorem restricts_of_ok {name : String} {root : Entity} {f : CompiledFilter} {q : Selection}
    {r : Restriction} (asks : q.Asks name f) (h : Sql.restriction s root q = .ok r) :
    Restricts s root f r := by
  unfold Sql.restriction Selection.needsSubquery at h
  rw [asks.predicate, asks.joins, asks.aggregate, asks.groupBy] at h
  cases something : f.predicate with
  | none =>
    rw [something] at h
    cases h
    exact .all something
  | some p =>
    rw [something] at h
    dsimp only at h
    split at h
    · next simple =>
      obtain ⟨condition, hcondition, h⟩ := bind_eq_ok.mp h
      cases h
      obtain ⟨single, alone⟩ : f.aggregate = false ∧ f.joins = [] := by
        simpa [List.isEmpty_iff] using simple
      exact .rows something single alone (ofRow_of_ok hcondition)
    · obtain ⟨clauses, made, h⟩ := bind_eq_ok.mp h
      split at h
      · next aggregate =>
        obtain ⟨refs, columns, h⟩ := bind_eq_ok.mp h
        obtain ⟨condition, hcondition, h⟩ := bind_eq_ok.mp h
        cases h
        exact .grouped something aggregate made columns (ofGroup_of_ok hcondition)
      · next single =>
        obtain ⟨condition, hcondition, h⟩ := bind_eq_ok.mp h
        cases h
        exact .joined something (by simpa using single) made (ofRow_of_ok hcondition)

/-! ## Where the terms come from -/

/-- Every term of the condition is that of a side of the comparison. -/
theorem Positive.side (h : Positive s joins c condition) (ht : t ∈ condition.terms) :
    ∃ o, (o = c.left ∨ o = c.right) ∧ Term.ofOperand s joins o = .ok t := by
  cases h with
  | isNull _ left =>
    rw [List.mem_singleton.mp ht]
    exact ⟨_, .inl rfl, left⟩
  | never => cases ht
  | anyOf _ _ left right | notDistinct _ left right | compare _ _ _ left right =>
    rcases List.mem_pair.mp ht with rfl | rfl
    · exact ⟨_, .inl rfl, left⟩
    · exact ⟨_, .inr rfl, right⟩
  | like _ left right =>
    rcases List.mem_cons.mp ht with rfl | ht
    · exact ⟨_, .inl rfl, left⟩
    · unfold Pattern.ofOperand at right
      split at right
      · cases right
        cases ht
      · obtain ⟨b, hb, right⟩ := bind_eq_ok.mp right
        cases right
        rw [List.mem_singleton.mp ht]
        exact ⟨_, .inr rfl, hb⟩

theorem Single.side (h : Single s joins c condition) (ht : t ∈ condition.terms) :
    ∃ o, (o = c.left ∨ o = c.right) ∧ Term.ofOperand s joins o = .ok t := by
  cases h with
  | positive _ h => exact h.side ht
  | negated _ h => exact h.side ht

theorem Single.ofRows (h : Single s joins c condition) : condition.OfRows := by
  cases h with
  | positive _ h => cases h <;> exact ⟨rfl, rfl⟩
  | negated _ h => cases h <;> exact ⟨rfl, rfl⟩

theorem OfRow.ofRows (h : OfRow s joins p condition) : condition.OfRows := by
  induction h with
  | leaf h => exact h.ofRows
  | and _ _ iha ihb => exact (iha.connect ihb).1
  | or _ _ iha ihb => exact (iha.connect ihb).2
  | not _ ih => exact ih

/-- Every term of the condition is that of a side of a comparison of the predicate. -/
theorem OfRow.side (h : OfRow s joins p condition) (ht : t ∈ condition.terms) :
    ∃ c ∈ p.leaves, ∃ o, (o = c.left ∨ o = c.right) ∧ Term.ofOperand s joins o = .ok t := by
  induction h with
  | leaf h => exact ⟨_, List.mem_singleton.mpr rfl, h.side ht⟩
  | and _ _ iha ihb | or _ _ iha ihb =>
    rcases List.mem_append.mp ht with ht | ht
    · obtain ⟨c, hc, h⟩ := iha ht
      exact ⟨c, List.mem_append_left _ hc, h⟩
    · obtain ⟨c, hc, h⟩ := ihb ht
      exact ⟨c, List.mem_append_right _ hc, h⟩
  | not _ ih => exact ih ht

theorem OfGroup.side (h : OfGroup s joins p condition) (ht : t ∈ condition.terms) :
    ∃ c ∈ p.leaves, ∃ o, (o = c.left ∨ o = c.right) ∧ Term.ofOperand s joins o = .ok t := by
  induction h with
  | rows _ h => exact h.side ht
  | leaf _ h => exact ⟨_, List.mem_singleton.mpr rfl, h.side ht⟩
  | and _ _ iha ihb | or _ _ iha ihb =>
    rcases List.mem_append.mp ht with ht | ht
    · obtain ⟨c, hc, h⟩ := iha ht
      exact ⟨c, List.mem_append_left _ hc, h⟩
    · obtain ⟨c, hc, h⟩ := ihb ht
      exact ⟨c, List.mem_append_right _ hc, h⟩
  | not _ ih => exact ih ht

/-- The column of a term is that of the attribute that the operand reads. -/
theorem column_of_ofOperand {o : Operand} {ref : ColumnRef}
    (h : Term.ofOperand s joins o = .ok t) (column : t.column? = some ref) :
    ∃ a, o.reads? = some a ∧ columnRef s joins a = .ok ref := by
  cases o with
  | attr a | aggregate _ a =>
    obtain ⟨ref', href, h⟩ := bind_eq_ok.mp h
    cases h
    cases column
    exact ⟨a, rfl, href⟩
  | literal | list | none =>
    cases h
    cases column

theorem isCall_of_ofOperand {o : Operand} (h : Term.ofOperand s joins o = .ok t) :
    t.isCall = o.isAggregate := by
  cases o with
  | attr a | aggregate _ a =>
    obtain ⟨ref, _, h⟩ := bind_eq_ok.mp h
    cases h
    rfl
  | literal | list | none =>
    cases h
    rfl

end EntityQuery.Sql
