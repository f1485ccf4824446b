import EntityQuery.Dataset.Store
import EntityQuery.Proofs.Filter.Correspondence
import EntityQuery.Sql.Statement

/-!
# Predicates that say the same

Two predicates agree (`Predicate.Agrees`) if they have the same truth at every binding and in every
group. **What a dataset selects by them is the same then** (`Dataset.select_of_agrees`), and so is
what they are grouped by, if they compare the same. More is asked for the same statements: that the
predicates set the same conditions (`SameConditions`, `Sql.Statement.select_of_sameConditions`).

Connectives keep either relation (`isCongruence_agrees`, `isCongruence_sameConditions`), so both are
proved of whole filters by proving them of the words that differ. The mark of a comparison and the
word before it are the same negation (`agrees_negated`).
-/

namespace EntityQuery

open Evaluator

/-- The two sides of a comparison. -/
def Comparison.sides (c : Comparison) : Operand × Operand := (c.left, c.right)

/-- The comparison that holds where this one fails. -/
def Comparison.negated (c : Comparison) : Comparison := { c with negate := !c.negate }

theorem Comparison.negated_negated (c : Comparison) : c.negated.negated = c := by
  rw [negated, negated, Bool.not_not]

theorem Comparison.truth_negated (c : Comparison) (left right : OperandValue) :
    c.negated.truth left right = (c.truth left right).not := by
  have positive (v : Value) : c.negated.positive v right = c.positive v right := rfl
  cases left with
  | many => rfl
  | one v =>
    unfold truth
    dsimp only
    rw [positive, show c.negated.negate = !c.negate from rfl]
    cases c.negate with
    | true => exact (Truth.not_not _).symm
    | false => rfl

namespace Predicate

variable {p p' : Predicate}

/-- The two predicates compare the same and have the same truth, at every binding and in every
group. -/
structure Agrees (p p' : Predicate) : Prop where
  sides : p'.leaves.map Comparison.sides = p.leaves.map Comparison.sides
  row : ∀ root b, rowTruth root b p' = rowTruth root b p
  group : ∀ root group, groupTruth root group p' = groupTruth root group p

theorem isAggregate_of_sides (h : p'.leaves.map Comparison.sides = p.leaves.map Comparison.sides) :
    p'.isAggregate = p.isAggregate := by
  have read (p : Predicate) : p.isAggregate = (p.leaves.map Comparison.sides).any fun sides =>
      sides.1.isAggregate || sides.2.isAggregate := by
    rw [isAggregate, Formula.any_eq_any_leaves, List.any_map]
    rfl
  rw [read, read, h]

theorem groupingAttributes_of_sides
    (h : p'.leaves.map Comparison.sides = p.leaves.map Comparison.sides) :
    p'.groupingAttributes = p.groupingAttributes := by
  have read (p : Predicate) : p.groupingAttributes =
      (((p.leaves.map Comparison.sides).filter fun sides =>
        sides.1.isAggregate || sides.2.isAggregate).flatMap fun sides =>
          sides.1.attr?.toList ++ sides.2.attr?.toList).foldl addNew [] := by
    rw [groupingAttributes, List.filter_map, List.flatMap_map]
    rfl
  rw [read, read, h]

theorem Agrees.isAggregate (h : Agrees p p') : p'.isAggregate = p.isAggregate :=
  isAggregate_of_sides h.sides

/-- Where the connective reads its parts group by group, and where it reads them row by row. -/
theorem isCongruence_agrees : Formula.IsCongruence Agrees where
  refl p := ⟨rfl, fun _ _ => rfl, fun _ _ => rfl⟩
  not {p p'} h := by
    have row (root : Record) (b : Binding) :
        rowTruth root b (.not p') = rowTruth root b (.not p) := by
      rw [rowTruth, rowTruth, h.row]
    refine ⟨h.sides, row, fun root group => ?_⟩
    have aggregate : Predicate.isAggregate (.not p') = Predicate.isAggregate (.not p) :=
      h.isAggregate
    unfold groupTruth
    rw [aggregate]
    simp only [h.group, row]
  and {p p' q q'} h h' := by
    have row (root : Record) (b : Binding) :
        rowTruth root b (.and p' q') = rowTruth root b (.and p q) := by
      rw [rowTruth, rowTruth, h.row, h'.row]
    have sides : (Formula.leaves (.and p' q')).map Comparison.sides =
        (Formula.leaves (.and p q)).map Comparison.sides := by
      simp only [Formula.leaves, List.map_append, h.sides, h'.sides]
    refine ⟨sides, row, fun root group => ?_⟩
    unfold groupTruth
    rw [isAggregate_of_sides sides]
    simp only [h.group, h'.group, row]
  or {p p' q q'} h h' := by
    have row (root : Record) (b : Binding) :
        rowTruth root b (.or p' q') = rowTruth root b (.or p q) := by
      rw [rowTruth, rowTruth, h.row, h'.row]
    have sides : (Formula.leaves (.or p' q')).map Comparison.sides =
        (Formula.leaves (.or p q)).map Comparison.sides := by
      simp only [Formula.leaves, List.map_append, h.sides, h'.sides]
    refine ⟨sides, row, fun root group => ?_⟩
    unfold groupTruth
    rw [isAggregate_of_sides sides]
    simp only [h.group, h'.group, row]

theorem Agrees.symm (h : Agrees p p') : Agrees p' p where
  sides := h.sides.symm
  row root b := (h.row root b).symm
  group root group := (h.group root group).symm

/-- The mark of a comparison and the word before it are the same negation. -/
theorem agrees_negated (c : Comparison) : Agrees (.leaf c.negated) (.not (.leaf c)) := by
  have row (root : Record) (b : Binding) :
      rowTruth root b (.not (.leaf c)) = rowTruth root b (.leaf c.negated) :=
    (c.truth_negated _ _).symm
  refine ⟨rfl, row, fun root group => ?_⟩
  have truth : groupTruth root group (.not (.leaf c)) =
      if c.isAggregate then (groupTruth root group (.leaf c)).not
      else .any (group.map fun b => rowTruth root b (.not (.leaf c))) := rfl
  have negated : groupTruth root group (.leaf c.negated) =
      if c.isAggregate then
        c.negated.truth (groupOperand root group c.left) (groupOperand root group c.right)
      else .any (group.map fun b => rowTruth root b (.leaf c.negated)) := rfl
  rw [truth, negated]
  split
  · next aggregate =>
    have whole : Predicate.isAggregate (.leaf c) = true := aggregate
    rw [c.truth_negated, groupTruth, if_pos whole]
  · simp only [row]

/-- Two negations cancel, the mark and the word. -/
theorem agrees_not_negated (c : Comparison) : Agrees (.not (.leaf c.negated)) (.leaf c) := by
  have back := (agrees_negated c.negated).symm
  rwa [c.negated_negated] at back

/-! ## Conditions -/

/-- The two predicates set the same conditions, to a row and to a group. -/
structure SameConditions (p p' : Predicate) : Prop where
  aggregate : p'.isAggregate = p.isAggregate
  row : ∀ s joins, Sql.Condition.ofRow s joins p' = Sql.Condition.ofRow s joins p
  group : ∀ s joins, Sql.Condition.ofGroup s joins p' = Sql.Condition.ofGroup s joins p

theorem isCongruence_sameConditions : Formula.IsCongruence SameConditions where
  refl p := ⟨rfl, fun _ _ => rfl, fun _ _ => rfl⟩
  not {p p'} h := by
    have aggregate : Predicate.isAggregate (.not p') = Predicate.isAggregate (.not p) := h.aggregate
    refine ⟨aggregate, fun s joins => ?_, fun s joins => ?_⟩
    · simp only [Sql.Condition.ofRow, h.row]
    · unfold Sql.Condition.ofGroup
      rw [aggregate]
      simp only [h.group, Sql.Condition.ofRow, h.row]
  and {p p' q q'} h h' := by
    have aggregate : Predicate.isAggregate (.and p' q') = Predicate.isAggregate (.and p q) :=
      congrArg₂ (· || ·) h.aggregate h'.aggregate
    refine ⟨aggregate, fun s joins => ?_, fun s joins => ?_⟩
    · simp only [Sql.Condition.ofRow, h.row, h'.row]
    · unfold Sql.Condition.ofGroup
      rw [aggregate]
      simp only [h.group, h'.group, Sql.Condition.ofRow, h.row, h'.row]
  or {p p' q q'} h h' := by
    have aggregate : Predicate.isAggregate (.or p' q') = Predicate.isAggregate (.or p q) :=
      congrArg₂ (· || ·) h.aggregate h'.aggregate
    refine ⟨aggregate, fun s joins => ?_, fun s joins => ?_⟩
    · simp only [Sql.Condition.ofRow, h.row, h'.row]
    · unfold Sql.Condition.ofGroup
      rw [aggregate]
      simp only [h.group, h'.group, Sql.Condition.ofRow, h.row, h'.row]

/-- A comparison that is not negated gets its negation in the same place, by the mark and by the
word. -/
theorem sameConditions_negated {c : Comparison} (plain : c.negate = false) :
    SameConditions (.leaf c.negated) (.not (.leaf c)) := by
  have positive (s : Schema) (joins : Joins) :
      Sql.Condition.ofPositive s joins c.negated = Sql.Condition.ofPositive s joins c := rfl
  have comparison (s : Schema) (joins : Joins) : Sql.Condition.ofComparison s joins c.negated =
      (do return .not (← Sql.Condition.ofComparison s joins c)) := by
    unfold Sql.Condition.ofComparison
    rw [positive, show c.negated.negate = !c.negate from rfl, plain]
    cases Sql.Condition.ofPositive s joins c <;> rfl
  refine ⟨rfl, fun s joins => (comparison s joins).symm, fun s joins => ?_⟩
  unfold Sql.Condition.ofGroup
  rw [show Predicate.isAggregate (.not (.leaf c)) = Predicate.isAggregate (.leaf c) from rfl,
    show Predicate.isAggregate (.leaf c.negated) = Predicate.isAggregate (.leaf c) from rfl]
  split
  · next aggregate =>
    simp only [comparison, Sql.Condition.ofGroup, aggregate, if_true]
  · simp only [Sql.Condition.ofRow, comparison]

end Predicate

/-! ## Selections -/

section

variable {q : Selection} {predicate : Option Predicate}

theorem Evaluator.keeps_of_agrees (ev : Evaluator)
    (agrees : Option.Rel Predicate.Agrees q.predicate predicate) (root : Record) :
    ev.keeps { q with predicate := predicate } root = ev.keeps q root := by
  unfold keeps
  dsimp only
  generalize q.predicate = p at agrees
  cases agrees with
  | none => rfl
  | some h => simp only [h.row, h.group]

/-- A dataset selects the same records by predicates that agree, and counts as many. -/
theorem Dataset.select_of_agrees (d : Dataset) (s : Schema)
    (agrees : Option.Rel Predicate.Agrees q.predicate predicate) :
    d.select s { q with predicate := predicate } = d.select s q ∧
      d.count s { q with predicate := predicate } = d.count s q := by
  have matching : d.matching s { q with predicate := predicate } = d.matching s q := by
    unfold matching
    have same (ev : Evaluator) : ev.keeps { q with predicate := predicate } = ev.keeps q :=
      funext (ev.keeps_of_agrees agrees)
    have evaluator : Evaluator.of d s { q with predicate := predicate } = Evaluator.of d s q := rfl
    simp only [same, evaluator]
  unfold Dataset.select Dataset.count
  rw [matching]
  exact ⟨rfl, rfl⟩

/-- The statements are the same if the predicates set the same conditions. -/
theorem Sql.Statement.select_of_sameConditions (s : Schema)
    (same : Option.Rel Predicate.SameConditions q.predicate predicate) :
    select s { q with predicate := predicate } = select s q ∧
      count s { q with predicate := predicate } = count s q := by
  have restriction (e : Entity) :
      Sql.restriction s e { q with predicate := predicate } = Sql.restriction s e q := by
    unfold Sql.restriction
    dsimp only
    have subquery : Selection.needsSubquery { q with predicate := predicate } = q.needsSubquery :=
      rfl
    rw [subquery]
    generalize q.predicate = p at same
    cases same with
    | none => rfl
    | some h => simp only [h.row, h.group]
  constructor
  · simp only [select, restriction]
  · simp only [count, restriction]

end

end EntityQuery
