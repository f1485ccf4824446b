/-! # Formulas

A formula joins leaves by conjunction, disjunction and negation. What the leaves are is left open:
the shape of a filter is the same whatever its words mean. -/
namespace EntityQuery

/-- Leaves joined by conjunction, disjunction and negation. -/
inductive Formula (α : Type) where
  | and (a b : Formula α)
  | or (a b : Formula α)
  | not (a : Formula α)
  | leaf (a : α)
deriving DecidableEq

namespace Formula

variable {α β : Type}

/-- The leaves, from left to right. -/
def leaves : Formula α → List α
  | and a b => a.leaves ++ b.leaves
  | or a b => a.leaves ++ b.leaves
  | not a => a.leaves
  | leaf a => [a]

/-- Whether a leaf has the property. -/
def any (p : α → Bool) : Formula α → Bool
  | and a b => a.any p || b.any p
  | or a b => a.any p || b.any p
  | not a => a.any p
  | leaf a => p a

/-- The same formula with other leaves. -/
def map (f : α → β) : Formula α → Formula β
  | and a b => and (a.map f) (b.map f)
  | or a b => or (a.map f) (b.map f)
  | not a => not (a.map f)
  | leaf a => leaf (f a)

theorem any_eq_any_leaves (p : α → Bool) (t : Formula α) : t.any p = t.leaves.any p := by
  induction t with
  | and a b iha ihb => simp [any, leaves, iha, ihb]
  | or a b iha ihb => simp [any, leaves, iha, ihb]
  | not a ih => simp [any, leaves, ih]
  | leaf a => simp [any, leaves]

theorem leaves_map (f : α → β) (t : Formula α) : (t.map f).leaves = t.leaves.map f := by
  induction t with
  | and a b iha ihb => simp [map, leaves, iha, ihb]
  | or a b iha ihb => simp [map, leaves, iha, ihb]
  | not a ih => simp [map, leaves, ih]
  | leaf a => rfl

end Formula

end EntityQuery
