/-! # Stable sorting

Each item in turn is moved before the items at the end that it must precede. Items of which neither
must precede the other keep their order, whatever the relation is otherwise. -/
namespace EntityQuery

variable {α : Type}

/-- Moves an item into items in reverse order, the last of which stands first. -/
def insertBackwards (precedes : α → α → Bool) (a : α) : List α → List α
  | [] => [a]
  | b :: rest =>
    if precedes a b then b :: insertBackwards precedes a rest else a :: b :: rest

/-- The items in order. -/
def stableSort (precedes : α → α → Bool) (l : List α) : List α :=
  (l.foldl (fun sorted a => insertBackwards precedes a sorted) []).reverse

theorem insertBackwards_perm (precedes : α → α → Bool) (a : α) (l : List α) :
    (insertBackwards precedes a l).Perm (a :: l) := by
  induction l with
  | nil => exact .refl _
  | cons b rest ih =>
    rw [insertBackwards]
    split
    · exact (ih.cons b).trans (.swap a b rest)
    · exact .refl _

/-- Sorting neither loses nor repeats an item. -/
theorem stableSort_perm (precedes : α → α → Bool) (l : List α) :
    (stableSort precedes l).Perm l := by
  have fold : ∀ sorted : List α,
      (l.foldl (fun sorted a => insertBackwards precedes a sorted) sorted).Perm
        (l.reverse ++ sorted) := by
    induction l with
    | nil => exact fun sorted => .refl _
    | cons a l ih =>
      intro sorted
      refine (ih _).trans ?_
      rw [List.reverse_cons, List.append_assoc]
      exact (insertBackwards_perm precedes a sorted).append_left _
  refine (List.reverse_perm _).trans ((fold []).trans ?_)
  rw [List.append_nil]
  exact List.reverse_perm l

end EntityQuery
