import EntityQuery.Proofs.Dataset.Ranges
import EntityQuery.Proofs.Filter.Operands
import EntityQuery.Proofs.Sql.Forms
import EntityQuery.Proofs.Sql.Refinement
import EntityQuery.Proofs.Sql.Statements

/-!
# The rows that a statement speaks of

In a statement every column belongs to a row that has been given a name: the root, or the row of a
table that is joined. Each table is joined to a row that stands before it, since a join comes after
its parent; and no two rows have one name, since the names are those of the joins (`Scoped`,
`scoped_of_joins`). So **every row that a statement speaks of is there**
(`compiled_query_well_scoped`).

This is said of the statement and of its text. `Subquery.WellScoped` is about what the joins give
and what the condition reads (`Restricts.wellScoped`); `Query.WellScoped` is about the query as
which the text is read, with its tables in order (`Joined.InOrder`) and the columns of its
expressions within the rows that they name (`Expr.Within`). The columns in the text of a condition
are those of its terms (`Condition.columns_expr`), so the second follows from the first. The part
about datasets is that of `InRange`.
-/

namespace EntityQuery.Sql

theorem Alias.text_injective : Function.Injective Alias.text := by
  intro a b h
  have same : read? a.text.toList = read? b.text.toList := by rw [h]
  rwa [read?_text, read?_text, Option.some.injEq] at same

/-! ## Joined tables -/

/-- Each table is joined to a row that has been seen, and its own row gets a name that no row seen
has. -/
def Scoped : List Alias → List JoinClause → Prop
  | _, [] => True
  | seen, c :: rest =>
    c.other.row ∈ seen ∧ c.row.text ∉ seen.map Alias.text ∧ Scoped (seen ++ [c.row]) rest

variable {s : Schema} {root : Entity} {joins : Joins} {i : Nat} {seen : List Alias} {j : JoinNode}

/-- A step is taken from the parent's row to that of the join, perhaps by way of a row between
them. -/
theorem joinClauses_rows {clauses : List JoinClause} (h : joinClauses s j = .ok clauses) :
    (∃ c, clauses = [c] ∧ c.row = .join j.id ∧ c.other.row = .ofSource j.parent) ∨
      ∃ l c, clauses = [l, c] ∧ l.row = .between j.id ∧ l.other.row = .ofSource j.parent ∧
        c.row = .join j.id ∧ c.other.row = .between j.id := by
  obtain ⟨owner, _, h⟩ := bind_eq_ok.mp h
  obtain ⟨a, _, h⟩ := bind_eq_ok.mp h
  dsimp only at h
  split at h
  · obtain ⟨target, _, h⟩ := bind_eq_ok.mp h
    obtain ⟨l, _, h⟩ := bind_eq_ok.mp h
    split at h
    · split at h
      · cases h
      · cases h
        exact .inl ⟨_, rfl, rfl, rfl⟩
    · cases h
      exact .inl ⟨_, rfl, rfl, rfl⟩
    · cases h
      exact .inr ⟨_, _, rfl, rfl, rfl, rfl, rfl⟩
  · cases h
    exact .inl ⟨_, rfl, rfl, rfl⟩
  · cases h
    exact .inl ⟨_, rfl, rfl, rfl⟩
  · cases h

/-- The rows seen are the root and those of the joins before the `i`th, with rows between them. -/
structure Seen (i : Nat) (seen : List Alias) : Prop where
  root : .root ∈ seen
  joins : ∀ k < i, .join k ∈ seen
  only : ∀ a ∈ seen, a = .root ∨ ∃ k < i, a = .join k ∨ a = .between k

theorem seen_root : Seen 0 [.root] where
  root := List.mem_singleton.mpr rfl
  joins := by
    intro k hk
    omega
  only := fun a ha => .inl (List.mem_singleton.mp ha)

theorem Seen.next (h : Seen i seen) {rows : List Alias} (here : .join i ∈ rows)
    (only : ∀ a ∈ rows, a = .join i ∨ a = .between i) : Seen (i + 1) (seen ++ rows) where
  root := List.mem_append_left _ h.root
  joins := by
    intro k hk
    by_cases last : k = i
    · rw [last]
      exact List.mem_append_right _ here
    · exact List.mem_append_left _ (h.joins k (by omega))
  only := by
    intro a ha
    rcases List.mem_append.mp ha with ha | ha
    · rcases h.only a ha with root | ⟨k, hk, row⟩
      · exact .inl root
      · exact .inr ⟨k, by omega, row⟩
    · exact .inr ⟨i, by omega, only a ha⟩

/-- The rows of a join have names that no row before it has. -/
theorem Seen.fresh (h : Seen i seen) {a : Alias} (ha : a = .join i ∨ a = .between i) :
    a.text ∉ seen.map Alias.text := by
  intro mem
  obtain ⟨b, hb, same⟩ := List.mem_map.mp mem
  rw [Alias.text_injective same] at hb
  rcases h.only a hb with root | ⟨k, hk, row⟩
  · rcases ha with rfl | rfl <;> cases root
  · rcases ha with rfl | rfl
    · rcases row with row | row
      · cases row
        omega
      · cases row
    · rcases row with row | row
      · cases row
      · cases row
        omega

theorem Seen.parent (h : Seen i seen) (earlier : ∀ k, j.parent = .join k → k < i) :
    .ofSource j.parent ∈ seen := by
  cases hp : j.parent with
  | root => exact h.root
  | join k => exact h.joins k (earlier k hp)

/-- Joins that stand at their numbers, after their parents, are joined to rows that stand before
them. -/
theorem scoped_of_joins {js : List JoinNode} {clauses : List (List JoinClause)}
    (made : List.Forall₂ (fun j cs => joinClauses s j = .ok cs) js clauses)
    (numbers : ∀ (n : Nat) (j : JoinNode), js[n]? = some j → j.id = i + n)
    (earlier : ∀ j ∈ js, ∀ k, j.parent = .join k → k < j.id) (before : Seen i seen) :
    Scoped seen clauses.flatten := by
  induction made generalizing i seen with
  | nil => trivial
  | @cons j cs js rest hj _ ih =>
    have id : j.id = i := numbers 0 j rfl
    obtain ⟨parent, earlier⟩ := List.forall_mem_cons.mp earlier
    rw [id] at parent
    have later : ∀ (n : Nat) (k : JoinNode), js[n]? = some k → k.id = i + 1 + n := by
      intro n k hk
      have := numbers (n + 1) k hk
      omega
    rw [List.flatten_cons]
    rcases joinClauses_rows hj with ⟨c, rfl, row, other⟩ |
      ⟨l, c, rfl, row, other, row', other'⟩
    · rw [id] at row
      refine ⟨other ▸ before.parent parent, before.fresh (.inl row), ih later earlier ?_⟩
      refine before.next (List.mem_singleton.mpr row.symm) fun a ha => .inl ?_
      rw [List.mem_singleton.mp ha, row]
    · rw [id] at row row' other'
      have fresh : c.row.text ∉ (seen ++ [l.row]).map Alias.text := by
        rw [List.map_append, List.mem_append, not_or]
        refine ⟨before.fresh (.inl row'), ?_⟩
        intro mem
        have same := Alias.text_injective (List.mem_singleton.mp mem)
        rw [row, row'] at same
        cases same
      refine ⟨other ▸ before.parent parent, before.fresh (.inr row), ?_, fresh, ?_⟩
      · rw [other', ← row]
        exact List.mem_append_right _ (List.mem_singleton.mpr rfl)
      · rw [List.append_assoc]
        refine ih later earlier (before.next ?_ ?_)
        · rw [row']
          exact List.mem_cons_of_mem _ (List.mem_singleton.mpr rfl)
        · rw [row, row']
          intro a ha
          rcases List.mem_pair.mp ha with rfl | rfl
          · exact .inr rfl
          · exact .inl rfl

theorem scoped_of_sound (sound : joins.Sound s root) {clauses : List (List JoinClause)}
    (made : joins.mapM (joinClauses s) = .ok clauses) : Scoped [.root] clauses.flatten := by
  refine scoped_of_joins (mapM_eq_ok.mp made) ?_ ?_ seen_root
  · intro n j hj
    rw [(sound.nodes n j hj).id, Nat.zero_add]
  · intro j hj k parent
    obtain ⟨n, hn⟩ := List.mem_iff_getElem?.mp hj
    have node := sound.nodes n j hn
    rw [node.id]
    exact node.earlier k parent

/-! ## Columns -/

/-- The row is the root, or that of a table that is joined. -/
def InScope (clauses : List JoinClause) (row : Alias) : Prop :=
  row = .root ∨ ∃ c ∈ clauses, c.row = row

theorem row_of_columnRef {a : AttrRef} {ref : ColumnRef} (h : columnRef s joins a = .ok ref) :
    ref.row = .ofSource a.source := by
  unfold columnRef at h
  split at h
  · cases h
    rfl
  · cases h
  · next id source _ =>
    rw [source]
    split at h
    · cases h
    · obtain ⟨_, _, h⟩ := bind_eq_ok.mp h
      cases h
      rfl

/-- What is read where there is such an attribute stands in a row that is there. -/
theorem inScope_of_in (sound : joins.Sound s root) {clauses : List (List JoinClause)}
    (made : joins.mapM (joinClauses s) = .ok clauses) {a : AttrRef} (ha : a.In joins) :
    InScope clauses.flatten (.ofSource a.source) := by
  obtain ⟨kind, hkind, _⟩ := ha
  cases hs : a.source with
  | root => exact .inl rfl
  | join id =>
    rw [hs] at hkind
    obtain ⟨j, hj, _⟩ := Option.map_eq_some_iff.mp hkind
    obtain ⟨cs, hcs, made⟩ :=
      exists_of_forall₂ (mapM_eq_ok.mp made).flip (List.mem_of_getElem? hj)
    have row : ∃ c ∈ cs, c.row = .join id := by
      rw [← (sound.nodes id j hj).id]
      rcases joinClauses_rows made with ⟨c, rfl, row, _⟩ | ⟨l, c, rfl, _, _, row, _⟩
      · exact ⟨c, List.mem_singleton.mpr rfl, row⟩
      · exact ⟨c, List.mem_cons_of_mem _ (List.mem_singleton.mpr rfl), row⟩
    obtain ⟨c, hc, row⟩ := row
    exact .inr ⟨c, List.mem_flatten.mpr ⟨cs, hcs, hc⟩, row⟩

/-! ## Statements -/

/-- The condition speaks of no rows but those that are there. -/
def Condition.WellScoped (clauses : List JoinClause) (c : Condition) : Prop :=
  ∀ t ∈ c.terms, ∀ ref, t.column? = some ref → InScope clauses ref.row

/-- The tables of a subquery are joined one after the other, each to a row before it, and everything
else speaks of the rows that these joins give. -/
structure Subquery.WellScoped (q : Subquery) : Prop where
  id : q.id.row = .root
  joins : Scoped [.root] q.joins
  grouping : ∀ refs, q.grouping = some refs → ∀ ref ∈ refs, InScope q.joins ref.row
  condition : q.condition.WellScoped q.joins

/-- Without a subquery there is no row but the root. -/
def Restriction.WellScoped : Restriction → Prop
  | all => True
  | rows c => c.WellScoped []
  | identifiers q => q.WellScoped

theorem wellScoped_of_side {clauses : List JoinClause} {condition : Condition} {p : Predicate}
    (side : ∀ t ∈ condition.terms, ∃ c ∈ p.leaves, ∃ o, (o = c.left ∨ o = c.right) ∧
      Term.ofOperand s joins o = .ok t)
    (there : ∀ a ∈ p.reads, InScope clauses (.ofSource a.source)) :
    condition.WellScoped clauses := by
  intro t ht ref column
  obtain ⟨c, hc, o, side, term⟩ := side t ht
  obtain ⟨a, reads, column⟩ := column_of_ofOperand term column
  rw [row_of_columnRef column]
  refine there a (List.mem_flatMap.mpr ⟨c, hc, ?_⟩)
  rcases side with rfl | rfl
  · exact List.mem_append_left _ (Option.mem_toList.mpr reads)
  · exact List.mem_append_right _ (Option.mem_toList.mpr reads)

theorem Restricts.wellScoped {f : CompiledFilter} {r : Restriction} (h : Restricts s root f r)
    (compiled : f.Compiled s root) : r.WellScoped := by
  have reads {p : Predicate} (something : f.predicate = some p) : ∀ a ∈ p.reads, a.In f.joins := by
    intro a ha
    obtain ⟨c, hc, ha⟩ := List.mem_flatMap.mp ha
    exact (compiled.leaves p something c hc).reads a ha
  cases h with
  | all => trivial
  | rows something _ alone h =>
    refine wellScoped_of_side (fun t => h.side) fun a ha => ?_
    obtain ⟨kind, hkind, _⟩ := reads something a ha
    rw [alone] at hkind
    cases hs : a.source with
    | root => exact .inl rfl
    | join id =>
      rw [hs] at hkind
      cases hkind
  | joined something _ made h =>
    refine ⟨rfl, scoped_of_sound compiled.joins made, ?_, ?_⟩
    · rintro _ ⟨⟩
    · exact wellScoped_of_side (fun t => h.side) fun a ha =>
        inScope_of_in compiled.joins made (reads something a ha)
  | grouped something _ made columns h =>
    refine ⟨rfl, scoped_of_sound compiled.joins made, ?_, ?_⟩
    · rintro _ ⟨⟩ ref mem
      rcases List.mem_cons.mp mem with rfl | mem
      · exact .inl rfl
      · obtain ⟨a, ha, column⟩ := exists_of_forall₂ (mapM_eq_ok.mp columns) mem
        rw [row_of_columnRef column]
        exact inScope_of_in compiled.joins made (compiled.reads_groupBy ha)
    · exact wellScoped_of_side (fun t => h.side) fun a ha =>
        inScope_of_in compiled.joins made (reads something a ha)

/-! ## Texts -/

/-- The columns in an expression, from left to right. -/
def Expr.columns : Expr → List ColumnRef
  | column c => [c]
  | parameter _ | string _ | null | never => []
  | lower e | aggregate _ e | isNull e | not e | someRow e => e.columns
  | concat a b | compare _ a b | anyOf a b | notDistinct a b | and a b | or a b =>
    a.columns ++ b.columns
  | like e pattern escape => e.columns ++ (pattern.columns ++ escape.columns)

/-- The expression speaks of these rows alone. -/
def Expr.Within (rows : List Alias) (e : Expr) : Prop := ∀ c ∈ e.columns, c.row ∈ rows

/-- Each table is joined, by a column of its own, to a row that has been named before, and its row
gets a name of its own. -/
def Joined.InOrder : List Alias → List Joined → Prop
  | _, [] => True
  | seen, j :: rest =>
    j.left.row = j.row ∧ j.right.row ∈ seen ∧ j.row ∉ seen ∧ InOrder (seen ++ [j.row]) rest

/-- The column that is given out. -/
def Output.column? : Output → Option ColumnRef
  | count => none
  | column c => some c
  | owner c => some c

/-- The rows that the tables of a query give. -/
def Query.rows {Restricting : Type} (q : Query Restricting) : List Alias :=
  .root :: q.joins.map Joined.row

/-- A query speaks of the rows of its own tables alone. -/
structure Query.WellScoped {Restricting : Type} (within : List Alias → Restricting → Prop)
    (q : Query Restricting) : Prop where
  joins : Joined.InOrder [.root] q.joins
  outputs : ∀ o ∈ q.outputs, ∀ c ∈ o.column?, c.row ∈ q.rows
  restriction : ∀ r ∈ q.restriction, within q.rows r
  grouping : ∀ refs ∈ q.grouping, ∀ c ∈ refs, c.row ∈ q.rows
  having : ∀ e ∈ q.having, e.Within q.rows
  order : ∀ t ∈ q.order, t.column.row ∈ q.rows

/-- A query in parentheses speaks of its own rows, and what stands before it of those around it. -/
def Kept.Within (rows : List Alias) : Kept → Prop
  | .rows e => e.Within rows
  | .among c q => c.row ∈ rows ∧ q.WellScoped Expr.Within

theorem Term.columns_expr (t : Term) (used : Nat) :
    (t.expr used).columns = t.column?.toList := by
  cases t <;> rfl

theorem Pattern.columns_expr (p : Pattern) (used : Nat) (ignoreCase : Bool) :
    (p.expr used ignoreCase).columns = p.terms.flatMap (·.column?.toList) := by
  cases p with
  | text => rfl
  | term t before after =>
    cases ignoreCase <;> cases before <;> cases after <;>
      simp [expr, terms, Expr.lowered, Expr.preceded, Expr.followed, Expr.anything, Expr.columns,
        Term.columns_expr]

/-- The columns in the text of a condition are those of its terms. -/
theorem Condition.columns_expr (c : Condition) (used : Nat) :
    (c.expr used).columns = c.terms.flatMap (·.column?.toList) := by
  induction c generalizing used with
  | isNull t => simp [expr, terms, Expr.columns, Term.columns_expr]
  | never => rfl
  | anyOf a b | notDistinct a b | compare _ a b =>
    simp [expr, terms, Expr.columns, Term.columns_expr]
  | like ignoreCase t pattern =>
    cases ignoreCase <;>
      simp [expr, terms, Expr.lowered, Expr.columns, Term.columns_expr, Pattern.columns_expr]
  | not c ih | someRow c ih => exact ih used
  | and a b iha ihb | or a b iha ihb =>
    simp [expr, terms, Expr.columns, iha, ihb]

theorem inOrder_joined {clauses : List JoinClause} (h : Scoped seen clauses) :
    Joined.InOrder seen (clauses.map JoinClause.joined) := by
  induction clauses generalizing seen with
  | nil => trivial
  | cons c rest ih =>
    obtain ⟨other, fresh, rest⟩ := h
    exact ⟨rfl, other, fun there => fresh (List.mem_map_of_mem there), ih rest⟩

/-- The names of the rows that joins give. -/
theorem InScope.mem {clauses : List JoinClause} {row : Alias} (h : InScope clauses row) :
    row ∈ Alias.root :: (clauses.map JoinClause.joined).map Joined.row := by
  rcases h with rfl | ⟨c, hc, rfl⟩
  · exact List.mem_cons_self
  · rw [List.map_map]
    exact List.mem_cons_of_mem _ (List.mem_map_of_mem hc)

theorem Condition.WellScoped.within {clauses : List JoinClause} {c : Condition}
    (h : c.WellScoped clauses) :
    (c.expr 0).Within (.root :: (clauses.map JoinClause.joined).map Joined.row) := by
  intro ref href
  rw [c.columns_expr, List.mem_flatMap] at href
  obtain ⟨t, ht, column⟩ := href
  exact (h t ht ref (Option.mem_toList.mp column)).mem

theorem Subquery.WellScoped.query {q : Subquery} (h : q.WellScoped) :
    q.query.WellScoped Expr.Within := by
  obtain ⟨id, table, joins, grouping, condition⟩ := q
  obtain ⟨id, joins, columns, condition⟩ := h
  refine ⟨inOrder_joined joins, ?_, ?_, ?_, ?_, nofun⟩
  · intro o ho c hc
    cases List.mem_singleton.mp ho
    cases hc
    rw [id]
    exact List.mem_cons_self
  · cases grouping with
    | none =>
      rintro _ ⟨⟩
      exact condition.within
    | some => nofun
  · exact fun refs hrefs ref href => (columns refs hrefs ref href).mem
  · cases grouping with
    | none => nofun
    | some =>
      rintro _ ⟨⟩
      exact condition.within

theorem Restriction.WellScoped.kept {r : Restriction} (h : r.WellScoped) :
    ∀ k ∈ r.kept, k.Within [.root] := by
  cases r with
  | all => nofun
  | rows c =>
    rintro _ ⟨⟩
    exact Condition.WellScoped.within h
  | identifiers q =>
    rintro _ ⟨⟩
    refine ⟨?_, h.query⟩
    rw [h.id]
    exact List.mem_cons_self

/-- The text of a selection speaks of the root alone, but for a query in parentheses. -/
theorem Statement.wellScoped_query {q : Selection} {st : Statement}
    (built : Statement.select s q = .ok st) (h : st.restriction.WellScoped) :
    st.query.WellScoped Kept.Within := by
  obtain ⟨e, _, built⟩ := bind_eq_ok.mp built
  obtain ⟨outputs, houtputs, built⟩ := bind_eq_ok.mp built
  obtain ⟨projection, _, houtputs⟩ := bind_eq_ok.mp houtputs
  obtain ⟨restriction, _, built⟩ := bind_eq_ok.mp built
  cases houtputs
  cases built
  refine ⟨trivial, ?_, h.kept, nofun, nofun, ?_⟩
  · intro o ho c hc
    obtain ⟨p, _, rfl⟩ := List.mem_map.mp ho
    cases hc
    exact List.mem_cons_self
  · intro t ht
    rcases List.mem_append.mp ht with ht | ht
    · obtain ⟨k, _, rfl⟩ := List.mem_map.mp ht
      exact List.mem_cons_self
    · cases List.mem_singleton.mp ht
      exact List.mem_cons_self

/-- **Every row that a statement speaks of is there.** The statement of a compiled filter speaks of
no rows but the root and those of tables that are joined before, and its text is read as a query of
which this holds. Where the same selection is answered by a dataset, each join is followed after its
parent, and no number is looked up that is not the number of a join. -/
theorem compiled_query_well_scoped {nullSafe : Bool} {filter name : String} {f : CompiledFilter}
    {q : Selection} (compiled : s.compileFilter nullSafe filter name = .ok f)
    (asks : q.Asks name f) :
    (∀ st, Statement.select s q = .ok st → st.restriction.WellScoped ∧
        ∃ query, Query.read? st.text = some query ∧ query.WellScoped Kept.Within) ∧
      ∀ (d : Dataset) (ev : Evaluator), Evaluator.of d s q = .ok ev →
        ∀ root : Record, ev.InRange q root := by
  obtain ⟨root, hroot, compiled⟩ := Schema.compileFilter_compiled compiled
  have hroot' : s.entity root.name = .ok root := Schema.name_of_entity hroot ▸ hroot
  constructor
  · intro st built
    have restricted := Statement.restriction_of_built hroot asks.entity (.inl built)
    have wellScoped := (restricts_of_ok asks restricted).wellScoped compiled
    exact ⟨wellScoped, st.query, st.read?_text, Statement.wellScoped_query built wellScoped⟩
  · intro d ev hev record
    exact Evaluator.inRange_of_compiled hev hroot' compiled asks record

namespace Pets

/-- The owner of a pet, and the pets of that owner. -/
def household : Joins :=
  [⟨0, .root, "Pet", "owner", "owner", .entity "Person"⟩,
    ⟨1, .join 0, "Person", "pets", "owner.pets", .entity "Pet"⟩]

/-- The pets whose owner has the pet of number 1. -/
def housemates : CompiledFilter :=
  .ofPredicate (some (.leaf
    ⟨.attr ⟨.join 1, .attribute "id" "id"⟩, .eq, false, false, .literal (.int 1)⟩)) household

theorem compiled_housemates :
    schema.compileFilter true "owner.pets.id:1" "Pet" = .ok housemates := by
  have scanned : scan "owner.pets.id:1" = .ok [.word 0 (.plain "owner.pets.id:1")] := by rfl
  have words : Formula.ofWords [.word 0 (.plain "owner.pets.id:1")] =
      .ok (some (.leaf (.plain "owner.pets.id:1"))) := by rfl
  have parsed : Expression.parse (.plain "owner.pets.id:1") =
      .ok ⟨"owner.pets.id", none, .eq, false, false, .literal "1"⟩ := by rfl
  have segments : Path.segments "owner.pets.id" = ["owner", "pets", "id"] := by rfl
  have resolved : schema.resolve "Pet" "owner.pets.id" [] =
      (.ok ⟨⟨.join 1, .attribute "id" "id"⟩, .integer, true⟩, household) := by
    unfold Schema.resolve
    rw [segments]
    rfl
  exact Schema.compileFilter_word rfl scanned words (Schema.compileWord_eq_ok parsed
    (Resolving.bind_eq_ok.mpr ⟨_, _, Resolving.bind_eq_ok.mpr ⟨_, _, resolved, rfl⟩, rfl⟩))

/-- Nobody has pets. -/
def nobody : Evaluator :=
  ⟨.empty, household, [.link "Person" .identity, .link "Pet" (.foreignKey "owner" "owner_id")]⟩

def stray : Record := ⟨"Pet", .int 3, [("id", .int 3)], [], []⟩

end Pets

open Pets in
/-- A pet without an owner has no row for its owner, and then none for the pets of the owner. -/
theorem compiled_query_well_scoped_pets :
    ∃ st query, Statement.select schema (.ofFilter "Pet" housemates) = .ok st ∧
      st.text = "SELECT r.\"id\", r.\"owner_id\" FROM \"pet\" r WHERE r.\"id\" IN (" ++
        "SELECT r.\"id\" FROM \"pet\" r LEFT JOIN \"person\" j0 ON j0.\"id\" = r.\"owner_id\" " ++
        "LEFT JOIN \"pet\" j1 ON j1.\"owner_id\" = j0.\"id\" WHERE j1.\"id\" = $1) " ++
        "ORDER BY r.\"id\" ASC" ∧
      st.restriction.WellScoped ∧ Query.read? st.text = some query ∧
      query.WellScoped Kept.Within ∧ nobody.InRange (.ofFilter "Pet" housemates) stray ∧
      nobody.expand stray = [[none, none]] := by
  obtain ⟨st, built⟩ : Succeeds (Statement.select schema (.ofFilter "Pet" housemates)) := ⟨_, rfl⟩
  have hev : Evaluator.of .empty schema (.ofFilter "Pet" housemates) = .ok nobody := by rfl
  have asks : (Selection.ofFilter "Pet" housemates).Asks "Pet" housemates :=
    ⟨rfl, rfl, rfl, rfl, rfl⟩
  obtain ⟨rows, inRange⟩ := compiled_query_well_scoped compiled_housemates asks
  obtain ⟨wellScoped, query, read, textScoped⟩ := rows st built
  refine ⟨st, query, built, ?_, wellScoped, read, textScoped, inRange .empty nobody hev stray, rfl⟩
  cases built
  decide +kernel

end EntityQuery.Sql
