import EntityQuery.Filter.Predicate

/-!
# Parts of predicates

What the comparisons of a predicate read (`Predicate.reads`), and the predicates that stand inside
another (`Formula.subtrees`). The attributes by which rows are grouped are **those that share a
comparison with a function** (`Predicate.mem_groupingAttributes`), whatever the order in which they
are collected.
-/

namespace EntityQuery

/-- The attribute that an operand reads, by itself or in a function. -/
def Operand.reads? : Operand → Option AttrRef
  | attr a => some a
  | aggregate _ a => some a
  | _ => Option.none

theorem Operand.reads?_of_attr? {o : Operand} {a : AttrRef} (h : o.attr? = some a) :
    o.reads? = some a := by
  cases o <;> cases h
  rfl

theorem Operand.eq_attr {o : Operand} {a : AttrRef} (h : o.reads? = some a)
    (single : o.isAggregate = false) : o = .attr a := by
  cases o with
  | attr => cases h; rfl
  | aggregate => cases single
  | literal | list | none => cases h

/-- The attributes that a comparison reads. -/
def Comparison.reads (c : Comparison) : List AttrRef :=
  c.left.reads?.toList ++ c.right.reads?.toList

theorem Comparison.mem_reads_of_attr? {c : Comparison} {a : AttrRef}
    (h : c.left.attr? = some a ∨ c.right.attr? = some a) : a ∈ c.reads := by
  rcases h with h | h
  · exact List.mem_append_left _ (Option.mem_toList.mpr (Operand.reads?_of_attr? h))
  · exact List.mem_append_right _ (Option.mem_toList.mpr (Operand.reads?_of_attr? h))

/-- The attributes that a predicate reads. -/
def Predicate.reads (p : Predicate) : List AttrRef := p.leaves.flatMap Comparison.reads

theorem mem_addNew {α : Type} [DecidableEq α] {l : List α} {a b : α} :
    b ∈ addNew l a ↔ b ∈ l ∨ b = a := by
  unfold addNew
  split
  · next h =>
    constructor
    · exact .inl
    · rintro (hb | rfl)
      · exact hb
      · exact h
  · simp

theorem mem_foldl_addNew {α : Type} [DecidableEq α] {l acc : List α} {b : α} :
    b ∈ l.foldl addNew acc ↔ b ∈ acc ∨ b ∈ l := by
  induction l generalizing acc with
  | nil => simp
  | cons a l ih => rw [List.foldl_cons, ih, mem_addNew, List.mem_cons, or_assoc]

/-- What shares a comparison with a function is grouped by. -/
theorem Predicate.mem_groupingAttributes {p : Predicate} {a : AttrRef} :
    a ∈ p.groupingAttributes ↔ ∃ c ∈ p.leaves, c.isAggregate = true ∧
      (c.left.attr? = some a ∨ c.right.attr? = some a) := by
  unfold groupingAttributes
  simp only [mem_foldl_addNew, List.not_mem_nil, false_or, List.mem_flatMap, List.mem_filter,
    List.mem_append, Option.mem_toList, and_assoc]

theorem Predicate.isAggregate_of_mem {p : Predicate} {c : Comparison} (hc : c ∈ p.leaves)
    (h : c.isAggregate = true) : p.isAggregate = true := by
  rw [isAggregate, Formula.any_eq_any_leaves]
  exact List.any_eq_true.mpr ⟨c, hc, h⟩

end EntityQuery
