import EntityQuery.Proofs.Preparation
import EntityQuery.Proofs.Sql.Forms
import EntityQuery.Proofs.Sql.Refinement
import EntityQuery.Proofs.Sql.Statements

/-!
# Grouped statements

Where a predicate applies a function, its condition is set to groups of rows. The flag that decides
this, the attributes by which rows are grouped and the condition itself are found by going through
the predicate three times; that these agree is what makes the grouping one that a database accepts.
**Functions stand in conditions of groups alone, and what stands there beside them, and is not about
some row of the group, is the same throughout the group** (`statements_well_grouped`).

The statement is spoken of twice. `Restriction.WellGrouped` says it of the condition as it is made
(`Restricts.wellGrouped`), `Query.WellGrouped` of the query as which the text of the statement is
read: an expression behind `WHERE` is `CallFree`, and one behind `HAVING` is `GroupedBy` the columns
behind `GROUP BY`. The second follows from the first because reading the text of a condition gives
its expression (`Condition.callFree_expr`, `Condition.groupedBy_expr`).
-/

namespace EntityQuery

theorem nodup_addNew {α : Type} [DecidableEq α] {l : List α} (h : l.Nodup) (a : α) :
    (addNew l a).Nodup := by
  unfold addNew
  by_cases there : a ∈ l
  · rw [if_pos there]
    exact h
  · rw [if_neg there, List.nodup_append]
    refine ⟨h, List.nodup_singleton a, ?_⟩
    intro b hb c hc same
    rw [same, List.mem_singleton.mp hc] at hb
    exact there hb

theorem nodup_foldl_addNew {α : Type} [DecidableEq α] (l : List α) {acc : List α}
    (h : acc.Nodup) : (l.foldl addNew acc).Nodup := by
  induction l generalizing acc with
  | nil => exact h
  | cons a l ih => exact ih (nodup_addNew h a)

namespace CompiledFilter.Compiled

variable {s : Schema} {root : Entity} {f : CompiledFilter}

theorem aggregate_eq (compiled : f.Compiled s root) :
    f.aggregate = f.predicate.any Predicate.isAggregate :=
  (congrArg CompiledFilter.aggregate compiled.eq).trans rfl

/-- Rows are grouped just where a comparison applies a function. -/
theorem aggregate_iff (compiled : f.Compiled s root) :
    f.aggregate = true ↔ ∃ c ∈ Formula.leavesOf f.predicate, c.isAggregate = true := by
  rw [compiled.aggregate_eq]
  cases f.predicate with
  | none => simp [Formula.leavesOf]
  | some p =>
    show p.isAggregate = true ↔ ∃ c ∈ p.leaves, c.isAggregate = true
    rw [Predicate.isAggregate, Formula.any_eq_any_leaves, List.any_eq_true]

theorem nodup_groupBy (compiled : f.Compiled s root) : f.groupBy.Nodup := by
  rw [compiled.eq]
  unfold CompiledFilter.ofPredicate
  dsimp only
  split
  · split
    · exact nodup_foldl_addNew _ List.nodup_nil
    · exact List.nodup_nil
  · exact List.nodup_nil

/-- An attribute that shares a comparison with a function is one by which rows are grouped. -/
theorem mem_groupBy_of_shared (compiled : f.Compiled s root) {p : Predicate}
    (hp : f.predicate = some p) {c : Comparison} (hc : c ∈ p.leaves)
    (aggregate : c.isAggregate = true) {a : AttrRef}
    (shared : c.left.attr? = some a ∨ c.right.attr? = some a) : a ∈ f.groupBy := by
  rw [compiled.eq, hp]
  unfold CompiledFilter.ofPredicate
  dsimp only [Option.any_some]
  rw [if_pos (Predicate.isAggregate_of_mem hc aggregate)]
  exact Predicate.mem_groupingAttributes.mpr ⟨c, hc, aggregate, shared⟩

end CompiledFilter.Compiled

namespace Sql

variable {s : Schema} {joins : Joins} {p : Predicate} {condition a : Condition} {t : Term}

/-! ## Conditions of groups -/

/-- No function stands in the condition. -/
def Condition.CallFree (c : Condition) : Prop := ∀ t ∈ c.terms, t.isCall = false

/-- What a predicate without functions sets to a row has none. -/
theorem OfRow.callFree (h : OfRow s joins p condition) (single : p.isAggregate = false) :
    condition.CallFree := by
  intro t ht
  obtain ⟨c, hc, o, side, term⟩ := h.side ht
  rw [isCall_of_ofOperand term]
  have plain : c.isAggregate = false := by
    by_contra aggregate
    rw [Predicate.isAggregate_of_mem hc (by simpa using aggregate)] at single
    cases single
  obtain ⟨left, right⟩ := Bool.or_eq_false_iff.mp plain
  rcases side with rfl | rfl
  · exact left
  · exact right

/-- A condition that is to hold of some row of a group is that of a predicate without functions. -/
theorem OfGroup.row (h : OfGroup s joins p condition) (ha : a ∈ condition.rowConditions) :
    ∃ q : Predicate, q.isAggregate = false ∧ OfRow s joins q a := by
  induction h with
  | @rows p c single h =>
    rw [List.mem_singleton.mp ha]
    exact ⟨p, single, h⟩
  | leaf _ h =>
    rw [h.ofRows.1] at ha
    cases ha
  | and _ _ ihp ihq | or _ _ ihp ihq =>
    rcases List.mem_append.mp ha with ha | ha
    · exact ihp ha
    · exact ihq ha
  | not _ ih => exact ih ha

/-- A term of a group that is not about some row is that of a comparison with a function. -/
theorem OfGroup.outer (h : OfGroup s joins p condition) (ht : t ∈ condition.outerTerms) :
    ∃ c ∈ p.leaves, c.isAggregate = true ∧
      ∃ o, (o = c.left ∨ o = c.right) ∧ Term.ofOperand s joins o = .ok t := by
  induction h with
  | rows => cases ht
  | @leaf c _ aggregate h =>
    rw [h.ofRows.2] at ht
    exact ⟨c, List.mem_singleton.mpr rfl, aggregate, h.side ht⟩
  | and _ _ ihp ihq | or _ _ ihp ihq =>
    rcases List.mem_append.mp ht with ht | ht
    · obtain ⟨c, hc, h⟩ := ihp ht
      exact ⟨c, List.mem_append_left _ hc, h⟩
    · obtain ⟨c, hc, h⟩ := ihq ht
      exact ⟨c, List.mem_append_right _ hc, h⟩
  | not _ ih => exact ih ht

/-- A column of a group that stands outside functions, and is not about some row, shares a
comparison with a function. -/
theorem OfGroup.outer_column (h : OfGroup s joins p condition) {ref : ColumnRef}
    (ht : .column ref ∈ condition.outerTerms) :
    ∃ c ∈ p.leaves, c.isAggregate = true ∧
      ∃ b, (c.left.attr? = some b ∨ c.right.attr? = some b) ∧ columnRef s joins b = .ok ref := by
  obtain ⟨c, hc, aggregate, o, side, term⟩ := h.outer ht
  obtain ⟨b, reads, column⟩ := column_of_ofOperand term rfl
  have attr : o.attr? = some b := by
    rw [Operand.eq_attr reads (isCall_of_ofOperand term).symm]
    rfl
  refine ⟨c, hc, aggregate, b, ?_, column⟩
  rcases side with rfl | rfl
  · exact .inl attr
  · exact .inr attr

/-! ## Statements -/

/-- The columns by which the rows are grouped, if they are. -/
def Restriction.grouping? : Restriction → Option (List ColumnRef)
  | all | rows _ => none
  | identifiers q => q.grouping

/-- The condition that rows or groups have to meet, if there is one. -/
def Restriction.condition? : Restriction → Option Condition
  | all => none
  | rows c => some c
  | identifiers q => some q.condition

/-- Functions are applied only where rows are grouped, to no row of a group by itself, and beside
them stand only columns by which the rows are grouped. -/
structure Restriction.WellGrouped (r : Restriction) : Prop where
  ungrouped : r.grouping? = none → ∀ c, r.condition? = some c → c.CallFree
  rows : ∀ c, r.condition? = some c → ∀ a ∈ c.rowConditions, a.CallFree
  columns : ∀ refs, r.grouping? = some refs → ∀ c, r.condition? = some c →
    ∀ ref, .column ref ∈ c.outerTerms → ref ∈ refs

variable {name : String} {root : Entity} {f : CompiledFilter} {q : Selection} {r : Restriction}

theorem wellGrouped_all : Restriction.all.WellGrouped := ⟨nofun, nofun, nofun⟩

/-- A condition of rows is fit to stand where rows are not grouped. -/
theorem wellGrouped_of_rows (ungrouped : r.grouping? = none) {c : Condition}
    (hc : r.condition? = some c) (h : OfRow s joins p c) (single : p.isAggregate = false) :
    r.WellGrouped where
  ungrouped := by
    intro _ c' hc'
    cases hc.symm.trans hc'
    exact h.callFree single
  rows := by
    intro c' hc' a ha
    cases hc.symm.trans hc'
    rw [h.ofRows.1] at ha
    cases ha
  columns := by
    intro refs hrefs
    rw [ungrouped] at hrefs
    cases hrefs

/-- Rows are grouped just where the predicate applies a function. -/
theorem Restricts.grouping_isSome_iff (h : Restricts s root f r) (compiled : f.Compiled s root) :
    r.grouping?.isSome = true ↔ f.aggregate = true := by
  cases h with
  | all nothing =>
    have single := compiled.aggregate_eq
    rw [nothing] at single
    rw [single]
    exact Iff.rfl
  | rows _ single | joined _ single =>
    rw [single]
    exact Iff.rfl
  | grouped _ aggregate =>
    rw [aggregate]
    exact Iff.rfl

theorem Restricts.wellGrouped (h : Restricts s root f r) (compiled : f.Compiled s root) :
    r.WellGrouped := by
  have functions {p : Predicate} (something : f.predicate = some p) :
      f.aggregate = p.isAggregate := by
    rw [compiled.aggregate_eq, something]
    rfl
  cases h with
  | all => exact wellGrouped_all
  | rows something single _ h | joined something single _ h =>
    exact wellGrouped_of_rows rfl rfl h (functions something ▸ single)
  | grouped something _ _ columns h =>
    refine ⟨?_, ?_, ?_⟩
    · rintro ⟨⟩
    · rintro _ ⟨⟩ a ha
      obtain ⟨part, single, row⟩ := h.row ha
      exact row.callFree single
    · rintro _ ⟨⟩ _ ⟨⟩ ref href
      obtain ⟨c, hc, aggregate, b, shared, column⟩ := h.outer_column href
      have grouped := compiled.mem_groupBy_of_shared something hc aggregate shared
      obtain ⟨ref', mem, column'⟩ := exists_of_forall₂ (mapM_eq_ok.mp columns).flip grouped
      cases column.symm.trans column'
      exact List.mem_cons_of_mem _ mem

/-! ## Texts -/

/-- No function of groups is applied in the expression. -/
def Expr.CallFree : Expr → Prop
  | aggregate _ _ | someRow _ => False
  | lower e | isNull e | not e => e.CallFree
  | concat a b | compare _ a b | anyOf a b | notDistinct a b | and a b | or a b =>
    a.CallFree ∧ b.CallFree
  | like e pattern escape => e.CallFree ∧ pattern.CallFree ∧ escape.CallFree
  | column _ | parameter _ | string _ | null | never => True

/-- The expression can be asked of rows that agree on these columns: it applies functions to rows
only, and a column that stands outside of them is one of these. -/
def Expr.GroupedBy (refs : List ColumnRef) : Expr → Prop
  | column c => c ∈ refs
  | aggregate _ e | someRow e => e.CallFree
  | lower e | isNull e | not e => e.GroupedBy refs
  | concat a b | compare _ a b | anyOf a b | notDistinct a b | and a b | or a b =>
    a.GroupedBy refs ∧ b.GroupedBy refs
  | like e pattern escape => e.GroupedBy refs ∧ pattern.GroupedBy refs ∧ escape.GroupedBy refs
  | parameter _ | string _ | null | never => True

/-- Functions of groups stand behind `HAVING` alone, beside the columns of a `GROUP BY`. -/
structure Query.WellGrouped (q : Query Expr) : Prop where
  rows : ∀ e ∈ q.restriction, e.CallFree
  groups : ∀ e ∈ q.having, ∃ refs, q.grouping = some refs ∧ e.GroupedBy refs

def Kept.WellGrouped : Kept → Prop
  | rows e => e.CallFree
  | among _ q => q.WellGrouped

/-- The rows are grouped, and the condition is set to the groups. -/
def Kept.IsGrouped : Kept → Prop
  | rows _ => False
  | among _ q => q.grouping.isSome = true ∧ q.having.isSome = true ∧ q.restriction = none

theorem Term.callFree_expr (h : t.isCall = false) (used : Nat) : (t.expr used).CallFree := by
  cases t with
  | aggregate => cases h
  | column | parameter | null => trivial

theorem Pattern.callFree_expr {p : Pattern} (h : ∀ t ∈ p.terms, t.isCall = false) (used : Nat)
    (ignoreCase : Bool) : (p.expr used ignoreCase).CallFree := by
  cases p with
  | text => trivial
  | term t before after =>
    have inner := Term.callFree_expr (h t List.mem_cons_self) used
    cases ignoreCase <;> cases before <;> cases after <;>
      simpa [expr, Expr.lowered, Expr.preceded, Expr.followed, Expr.anything, Expr.CallFree]
        using inner

/-- The text of a condition of rows in which no function stands applies none. -/
theorem Condition.callFree_expr {c : Condition} (rows : c.rowConditions = [])
    (free : c.CallFree) (used : Nat) : (c.expr used).CallFree := by
  induction c generalizing used with
  | isNull t => exact t.callFree_expr (free t List.mem_cons_self) used
  | never => trivial
  | anyOf a b | notDistinct a b | compare _ a b =>
    have ha := free a List.mem_cons_self
    have hb := free b (List.mem_cons_of_mem _ (List.mem_singleton.mpr rfl))
    exact ⟨a.callFree_expr ha _, b.callFree_expr hb _⟩
  | like ignoreCase t pattern =>
    obtain ⟨ht, hp⟩ := List.forall_mem_cons.mp free
    refine ⟨?_, Pattern.callFree_expr hp _ _, trivial⟩
    cases ignoreCase <;> exact t.callFree_expr ht used
  | not c ih => exact ih rows free used
  | and a b iha ihb | or a b iha ihb =>
    obtain ⟨ra, rb⟩ := List.append_eq_nil_iff.mp rows
    obtain ⟨fa, fb⟩ := List.forall_mem_append.mp free
    exact ⟨iha ra fa _, ihb rb fb _⟩
  | someRow => cases rows

theorem Term.groupedBy_expr {refs : List ColumnRef} (h : ∀ ref, t = .column ref → ref ∈ refs)
    (used : Nat) : (t.expr used).GroupedBy refs := by
  cases t with
  | column c => exact h c rfl
  | aggregate | parameter | null => trivial

theorem Pattern.groupedBy_expr {p : Pattern} {refs : List ColumnRef}
    (h : ∀ ref, .column ref ∈ p.terms → ref ∈ refs) (used : Nat) (ignoreCase : Bool) :
    (p.expr used ignoreCase).GroupedBy refs := by
  cases p with
  | text => trivial
  | term t before after =>
    have inner : (t.expr used).GroupedBy refs :=
      t.groupedBy_expr (fun ref same => h ref (same ▸ List.mem_cons_self)) used
    cases ignoreCase <;> cases before <;> cases after <;>
      simpa [expr, Expr.lowered, Expr.preceded, Expr.followed, Expr.anything, Expr.GroupedBy]
        using inner

/-- The text of a condition of groups can be asked of the groups. -/
theorem Condition.groupedBy_expr {c : Condition} {refs : List ColumnRef}
    (rows : ∀ a ∈ c.rowConditions, a.rowConditions = [] ∧ a.CallFree)
    (columns : ∀ ref, .column ref ∈ c.outerTerms → ref ∈ refs) (used : Nat) :
    (c.expr used).GroupedBy refs := by
  induction c generalizing used with
  | isNull t =>
    exact t.groupedBy_expr (fun ref same => columns ref (List.mem_singleton.mpr same.symm)) used
  | never => trivial
  | anyOf a b | notDistinct a b | compare _ a b =>
    refine ⟨a.groupedBy_expr ?_ _, b.groupedBy_expr ?_ _⟩
    · rintro ref rfl
      exact columns ref List.mem_cons_self
    · rintro ref rfl
      exact columns ref (List.mem_cons_of_mem _ (List.mem_singleton.mpr rfl))
  | like ignoreCase t pattern =>
    have ht : (t.expr used).GroupedBy refs :=
      t.groupedBy_expr (fun ref same => columns ref (same ▸ List.mem_cons_self)) used
    refine ⟨?_, Pattern.groupedBy_expr (fun ref h => columns ref (List.mem_cons_of_mem _ h)) _ _,
      trivial⟩
    cases ignoreCase <;> exact ht
  | not c ih => exact ih rows columns used
  | and a b iha ihb | or a b iha ihb =>
    obtain ⟨ra, rb⟩ := List.forall_mem_append.mp rows
    have left := iha ra (fun ref h => columns ref (List.mem_append_left _ h)) used
    have right := ihb rb (fun ref h => columns ref (List.mem_append_right _ h))
    exact ⟨left, right _⟩
  | someRow c =>
    obtain ⟨single, free⟩ := rows c (List.mem_singleton.mpr rfl)
    exact c.callFree_expr single free used

/-- What the text of a restriction is read as applies functions where the restriction does. -/
theorem Restricts.wellGrouped_kept (h : Restricts s root f r) (compiled : f.Compiled s root) :
    ∀ k ∈ r.kept, k.WellGrouped := by
  have wellGrouped := h.wellGrouped compiled
  cases h with
  | all => nofun
  | rows _ _ _ h =>
    rintro _ ⟨⟩
    exact Condition.callFree_expr h.ofRows.1 (wellGrouped.ungrouped rfl _ rfl) 0
  | joined _ _ _ h =>
    rintro _ ⟨⟩
    refine ⟨?_, nofun⟩
    rintro _ ⟨⟩
    exact Condition.callFree_expr h.ofRows.1 (wellGrouped.ungrouped rfl _ rfl) 0
  | @grouped _ _ _ condition _ _ _ _ h =>
    rintro _ ⟨⟩
    refine ⟨nofun, ?_⟩
    rintro _ ⟨⟩
    have rows : ∀ a ∈ condition.rowConditions, a.rowConditions = [] ∧ a.CallFree := by
      intro a ha
      obtain ⟨_, _, row⟩ := h.row ha
      exact ⟨row.ofRows.1, wellGrouped.rows _ rfl a ha⟩
    exact ⟨_, rfl, Condition.groupedBy_expr rows (wellGrouped.columns _ rfl _ rfl) 0⟩

theorem Restriction.isGrouped_kept_iff :
    (∃ k ∈ r.kept, k.IsGrouped) ↔ r.grouping?.isSome = true := by
  cases r with
  | all | rows => simp [kept, grouping?, Kept.IsGrouped]
  | identifiers q =>
    obtain ⟨id, table, joins, grouping, c⟩ := q
    cases grouping <;> simp [kept, grouping?, Kept.IsGrouped, Subquery.query]

/-- **Functions and groups stand together.** The statements of a compiled filter group rows just
where a comparison of it applies a function. Elsewhere they apply none, and where they do, functions
are applied neither in a condition of rows nor to some row of a group, and every column beside them
is one by which rows are grouped; and the text of the statement is read as a query of which all this
holds. The attributes by which rows are grouped are different, and each shares a comparison with a
function. -/
theorem statements_well_grouped {nullSafe : Bool} {filter : String} {st : Statement}
    (compiled : s.compileFilter nullSafe filter name = .ok f) (asks : q.Asks name f)
    (built : Statement.select s q = .ok st ∨ Statement.count s q = .ok st) :
    (st.restriction.grouping?.isSome = true ↔
        ∃ c ∈ Formula.leavesOf f.predicate, c.isAggregate = true) ∧
      st.restriction.WellGrouped ∧
      (∃ query, Query.read? st.text = some query ∧ query.grouping = none ∧ query.having = none ∧
        (∀ k ∈ query.restriction, k.WellGrouped) ∧
        ((∃ k ∈ query.restriction, k.IsGrouped) ↔
          ∃ c ∈ Formula.leavesOf f.predicate, c.isAggregate = true)) ∧
      f.groupBy.Nodup ∧
      ∀ a ∈ f.groupBy, ∃ c ∈ Formula.leavesOf f.predicate, c.isAggregate = true ∧
        (c.left.attr? = some a ∨ c.right.attr? = some a) := by
  obtain ⟨root, hroot, compiled⟩ := Schema.compileFilter_compiled compiled
  have restricted := Statement.restriction_of_built hroot asks.entity built
  have restricts := restricts_of_ok asks restricted
  have routed := (restricts.grouping_isSome_iff compiled).trans compiled.aggregate_iff
  have read : ∃ query, Query.read? st.text = some query ∧ query.grouping = none ∧
      query.having = none ∧ (∀ k ∈ query.restriction, k.WellGrouped) ∧
      ((∃ k ∈ query.restriction, k.IsGrouped) ↔
        ∃ c ∈ Formula.leavesOf f.predicate, c.isAggregate = true) :=
    ⟨st.query, st.read?_text, rfl, rfl, restricts.wellGrouped_kept compiled,
      Restriction.isGrouped_kept_iff.trans routed⟩
  refine ⟨routed, restricts.wellGrouped compiled, read, compiled.nodup_groupBy, ?_⟩
  intro a ha
  obtain ⟨p, hp, c, hc, shared⟩ := compiled.shared_of_mem_groupBy ha
  rw [hp]
  exact ⟨c, hc, shared⟩

namespace Pets

def outnumbered : Comparison :=
  ⟨.attr ⟨.root, .attribute "id" "id"⟩, .lt, false, false,
    .aggregate .countDistinct ⟨.join 0, .attribute "id" "id"⟩⟩

/-- The persons with `x_` in their name whose number is smaller than that of their pets. -/
def fewer : CompiledFilter :=
  ⟨some (.and named (.leaf outnumbered)), filter.joins, true, [⟨.root, .attribute "id" "id"⟩]⟩

end Pets

open Pets in
theorem statements_well_grouped_pets :
    ∃ st query, Statement.select schema (.ofFilter "Person" fewer) = .ok st ∧
      st.text = "SELECT r.\"id\", r.\"name\" FROM \"person\" r WHERE r.\"id\" IN (" ++
        "SELECT r.\"id\" FROM \"person\" r LEFT JOIN \"pet\" j0 ON j0.\"owner_id\" = r.\"id\" " ++
        "GROUP BY r.\"id\", r.\"id\" HAVING (BOOL_OR(lower(r.\"name\") LIKE $1 ESCAPE '\\') AND " ++
        "r.\"id\" < COUNT(DISTINCT j0.\"id\"))) ORDER BY r.\"id\" ASC" ∧
      st.restriction.grouping?.isSome = true ∧ st.restriction.WellGrouped ∧
      Query.read? st.text = some query ∧ (∀ k ∈ query.restriction, k.WellGrouped) ∧
      (∃ k ∈ query.restriction, k.IsGrouped) ∧ fewer.groupBy.Nodup := by
  have compiled : schema.compileFilter true "name::icontains:X_ id::lt:count\x7bpets\x7d" "Person" =
      .ok fewer := by cbv
  obtain ⟨st, built⟩ : Succeeds (Statement.select schema (.ofFilter "Person" fewer)) := ⟨_, rfl⟩
  obtain ⟨routed, wellGrouped, ⟨query, read, _, _, textGrouped, textRouted⟩, distinct, _⟩ :=
    statements_well_grouped compiled ⟨rfl, rfl, rfl, rfl, rfl⟩ (.inl built)
  have applied : ∃ c ∈ Formula.leavesOf fewer.predicate, c.isAggregate = true :=
    ⟨outnumbered, List.mem_cons_of_mem _ (List.mem_singleton.mpr rfl), rfl⟩
  refine ⟨st, query, built, ?_, routed.mpr applied, wellGrouped, read, textGrouped,
    textRouted.mpr applied, distinct⟩
  cases built
  decide +kernel

end Sql

end EntityQuery
