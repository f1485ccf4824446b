/-! # Truth values

A condition holds, fails, or is unknown where it depends on a null. Connectives give a definite
value as soon as the operands that are known determine it. -/
namespace EntityQuery

/-- The truth of a condition. -/
inductive Truth where
  | holds
  | fails
  | unknown
deriving DecidableEq, Repr

namespace Truth

/-- The truth of a condition that is known. -/
def ofBool (b : Bool) : Truth := if b then holds else fails

/-- Conjunction. -/
def and : Truth → Truth → Truth
  | fails, _ | _, fails => fails
  | holds, holds => holds
  | _, _ => unknown

/-- Disjunction. -/
def or : Truth → Truth → Truth
  | holds, _ | _, holds => holds
  | fails, fails => fails
  | _, _ => unknown

/-- Negation. -/
def not : Truth → Truth
  | holds => fails
  | fails => holds
  | unknown => unknown

/-- Whether a condition holds of some row: unknown rows do not count, and without any other row the
answer is unknown. -/
def any (values : List Truth) : Truth :=
  if holds ∈ values then holds else if fails ∈ values then fails else unknown

@[simp] theorem not_not (t : Truth) : t.not.not = t := by cases t <;> rfl

theorem not_and (a b : Truth) : (a.and b).not = a.not.or b.not := by
  cases a <;> cases b <;> rfl

theorem not_or (a b : Truth) : (a.or b).not = a.not.and b.not := by
  cases a <;> cases b <;> rfl

theorem and_comm (a b : Truth) : a.and b = b.and a := by cases a <;> cases b <;> rfl

theorem or_comm (a b : Truth) : a.or b = b.or a := by cases a <;> cases b <;> rfl

theorem and_assoc (a b c : Truth) : (a.and b).and c = a.and (b.and c) := by
  cases a <;> cases b <;> cases c <;> rfl

theorem or_assoc (a b c : Truth) : (a.or b).or c = a.or (b.or c) := by
  cases a <;> cases b <;> cases c <;> rfl

theorem any_eq_holds_iff {values : List Truth} : any values = holds ↔ holds ∈ values := by
  unfold any
  split
  · simp [*]
  · split <;> simp [*]

end Truth

end EntityQuery
