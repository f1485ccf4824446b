import EntityQuery.Proofs.Preparation
import EntityQuery.Proofs.Sql.Names
import EntityQuery.Proofs.Sql.Placeholders
import EntityQuery.Proofs.Sql.Refinement
import EntityQuery.Proofs.Value.Order

/-!
# The values that a statement is sent with

**A compiled filter sends what its predicate compares with and nothing else**
(`select_sends_constants`): for each literal, and each list that is not empty, one value in its own
place. This is read off the form of each condition (`Positive.sends`, `Single.sends`, `OfRow.sends`,
`OfGroup.sends`), and carried over from conditions to the statements that select and count
(`Restricts.sends`, `Statement.sends`).
-/

namespace EntityQuery.Sql

open Fragment

/-! ## Terms -/

section

variable {s : Schema} {root : Entity} {joins : Joins} {o : Operand} {op : Operator}
  {type : ScalarType} {t : Term} (hroot : root ∈ s.entities)
  (names : ∀ name ∈ s.storageNames, Quiet name)

include hroot names

/-- What is read stands in the text as it is, and sends nothing. -/
theorem sends_read (op : Operator) (read : o.HasType s root joins type)
    (h : Term.ofOperand s joins o = .ok t) :
    t.fragment.Sends (o.constants op) ∧ t.fragment.hidden = [] := by
  rw [Operand.constants_of_not read.not_isConstant]
  cases read with
  | attr read =>
    obtain ⟨ref, href, h⟩ := bind_eq_ok.mp h
    cases h
    obtain ⟨quiet, opens⟩ := plain_column (names _ (mem_storageNames_of_columnRef hroot read href))
    exact ⟨.phrase _ quiet opens, rfl⟩
  | @aggregate f _ _ _ _ read _ =>
    obtain ⟨ref, href, h⟩ := bind_eq_ok.mp h
    cases h
    obtain ⟨quiet, opens⟩ :=
      plain_call f (names _ (mem_storageNames_of_columnRef hroot read href))
    exact ⟨.phrase _ quiet opens, rfl⟩

/-- A constant on the right of an operator that looks for no text is sent as it is. -/
theorem sends_right (fits : o.FitsRight s root joins type op) (noPattern : op.isPattern = false)
    (something : o ≠ .list []) (h : Term.ofOperand s joins o = .ok t) :
    t.fragment.Sends (o.constants op) := by
  cases fits with
  | null =>
    cases h
    exact .phrase _ (by decide) (by decide)
  | @list vs holds =>
    cases h
    cases vs with
    | nil => exact absurd rfl something
    | cons v vs =>
      rw [Bind.ofList_of_types fun w hw => (holds w hw).type]
      exact .placeholder (.list fun w hw => (holds w hw).type)
  | literal _ _ holds =>
    cases h
    exact .placeholder (.literal _ noPattern)
  | read _ _ read => exact (sends_read hroot names op read h).1

/-- A literal on the right of an operator that looks for a text is sent as a pattern. -/
theorem sends_pattern (fits : o.FitsRight s root joins type op) (isPattern : op.isPattern = true)
    (text : type = .text) {pattern : Pattern} (h : Pattern.ofOperand s joins op o = .ok pattern)
    (ignoreCase : Bool) : (pattern.fragment ignoreCase).Sends (o.constants op) := by
  cases fits with
  | null | list => cases isPattern
  | literal _ _ holds =>
    have held := holds.type
    rw [text] at held
    obtain ⟨needle, rfl⟩ := Value.exists_eq_of_type? held
    cases h
    exact .placeholder (.pattern needle isPattern)
  | read _ _ read =>
    unfold Pattern.ofOperand at h
    split at h
    · cases read
    · obtain ⟨t, ht, h⟩ := bind_eq_ok.mp h
      cases h
      have piece (present : Bool) {s : String} (quiet : Quiet s) (opens : Opens s) :
          Sends (if present then [.text s] else []) [] := by
        split
        · exact .phrase _ quiet opens
        · exact .nil
      have term := (sends_read hroot names op read ht).1.lowered ignoreCase
      have before := piece (anyBefore op) (s := "'%' || ") (by decide) (by decide)
      have after := piece (anyAfter op) (s := " || '%'") (by decide) (by decide)
      exact .around before term after

/-! ## Conditions -/

theorem Positive.sends {c : Comparison} {condition : Condition}
    (h : Positive s joins c condition) (typed : c.HasType s root joins type) :
    condition.fragment.Sends c.constants := by
  have right := typed.right
  have read {t : Term} (h : Term.ofOperand s joins c.left = .ok t) :=
    sends_read hroot names c.operator typed.left h
  unfold Comparison.constants
  cases h with
  | isNull op left =>
    have nothing : c.right.constants c.operator = [] := by
      refine Operand.constants_of_not ?_
      rw [op] at right
      generalize c.right = o at right
      cases right with
      | null => rfl
      | literal notNull => exact absurd rfl notNull
      | read notNull => exact absurd rfl notNull
    rw [nothing, List.append_nil]
    exact (read left).1.followed " IS NULL" (by decide) (by decide)
  | never op nothing left =>
    have unread : c.left.constants c.operator = [] :=
      Operand.constants_of_not typed.left.not_isConstant
    have unsent : c.right.constants c.operator = [] := by
      rw [nothing]
      rfl
    rw [unread, unsent]
    show Sends (_ ++ [.text "FALSE"]) []
    rw [(read left).2]
    exact .phrase _ (by decide) (by decide)
  | anyOf op something left hright =>
    have noPattern : c.operator.isPattern = false := by rw [op]; rfl
    have array := sends_right hroot names right noPattern something hright
    have before := (read left).1.followed " = ANY(" (by decide) (by decide)
    exact (before.append array).followed ")" (by decide) (by decide)
  | notDistinct op left hright =>
    have noPattern : c.operator.isPattern = false := by rw [op]; rfl
    have something := right.ne_nil (by rw [op]; decide)
    have before := (read left).1.followed " IS NOT DISTINCT FROM " (by decide) (by decide)
    exact before.append (sends_right hroot names right noPattern something hright)
  | like op left hright =>
    have pattern := sends_pattern hroot names right op (typed.text op) hright
      c.operator.ignoresCase
    have before := ((read left).1.lowered c.operator.ignoresCase).followed " LIKE "
      (by decide) (by decide)
    exact (before.append pattern).followed " ESCAPE '\\'" (by decide) (by decide)
  | compare notNull notIn noPattern left hright =>
    have symbol : Quiet (" " ++ (Relation.ofOperator c.operator).text ++ " ") ∧
        Opens (" " ++ (Relation.ofOperator c.operator).text ++ " ") := by
      cases c.operator <;> decide
    have before := (read left).1.followed _ symbol.1 symbol.2
    exact before.append (sends_right hroot names right noPattern (right.ne_nil notIn) hright)

theorem Single.sends {c : Comparison} {condition : Condition}
    (h : Single s joins c condition) (typed : c.HasType s root joins type) :
    condition.fragment.Sends c.constants := by
  cases h with
  | positive _ h => exact h.sends hroot names typed
  | negated _ h =>
    exact .around (.phrase _ (by decide) (by decide)) (h.sends hroot names typed)
      (.phrase _ (by decide) (by decide))

theorem OfRow.sends {p : Predicate} {condition : Condition} (h : OfRow s joins p condition)
    (typed : ∀ c ∈ p.leaves, ∃ type, c.HasType s root joins type) :
    condition.fragment.Sends p.constants := by
  induction h with
  | @leaf c _ h =>
    obtain ⟨type, typed⟩ := typed c (List.mem_singleton.mpr rfl)
    rw [Predicate.constants_leaf]
    exact h.sends hroot names typed
  | and _ _ iha ihb =>
    have left := iha fun c hc => typed c (List.mem_append_left _ hc)
    have right := ihb fun c hc => typed c (List.mem_append_right _ hc)
    rw [Predicate.constants_and]
    exact left.connected right " AND " (by decide) (by decide)
  | or _ _ iha ihb =>
    have left := iha fun c hc => typed c (List.mem_append_left _ hc)
    have right := ihb fun c hc => typed c (List.mem_append_right _ hc)
    rw [Predicate.constants_or]
    exact left.connected right " OR " (by decide) (by decide)
  | not _ ih =>
    exact .around (.phrase _ (by decide) (by decide)) (ih typed)
      (.phrase _ (by decide) (by decide))

theorem OfGroup.sends {p : Predicate} {condition : Condition} (h : OfGroup s joins p condition)
    (typed : ∀ c ∈ p.leaves, ∃ type, c.HasType s root joins type) :
    condition.fragment.Sends p.constants := by
  induction h with
  | rows _ h =>
    exact .around (.phrase _ (by decide) (by decide)) (h.sends hroot names typed)
      (.phrase _ (by decide) (by decide))
  | @leaf c _ _ h =>
    obtain ⟨type, typed⟩ := typed c (List.mem_singleton.mpr rfl)
    rw [Predicate.constants_leaf]
    exact h.sends hroot names typed
  | and _ _ iha ihb =>
    have left := iha fun c hc => typed c (List.mem_append_left _ hc)
    have right := ihb fun c hc => typed c (List.mem_append_right _ hc)
    rw [Predicate.constants_and]
    exact left.connected right " AND " (by decide) (by decide)
  | or _ _ iha ihb =>
    have left := iha fun c hc => typed c (List.mem_append_left _ hc)
    have right := ihb fun c hc => typed c (List.mem_append_right _ hc)
    rw [Predicate.constants_or]
    exact left.connected right " OR " (by decide) (by decide)
  | not _ ih =>
    exact .around (.phrase _ (by decide) (by decide)) (ih typed)
      (.phrase _ (by decide) (by decide))

end

/-! ## Statements -/

/-- A statement without joins of its own sends what its restriction sends. -/
theorem Statement.sends {outputs : List Output} {table : String} {r : Restriction}
    {order : List OrderTerm} {cs : List (Operator × Operand)} (limit : Option Nat) (offset : Nat)
    (ho : ∀ output ∈ outputs, Quiet output.text) (ht : Quiet table)
    (sorted : ∀ t ∈ order, Quiet t.column.column) (sends : r.fragment.Sends cs) :
    (Statement.mk outputs table [] r order limit offset).fragment.Sends cs := by
  have selected : Quiet ("SELECT " ++ commaText (outputs.map Output.text) ++ " FROM " ++
      fromText table []) := by
    simp only [quiet_append]
    exact ⟨⟨⟨by decide, quiet_commaText (List.forall_mem_map.mpr ho)⟩, by decide⟩,
      quiet_fromText ht (List.forall_mem_nil _)⟩
  have opens := (((show Opens "SELECT " by decide).append
    (commaText (outputs.map Output.text))).append " FROM ").append (fromText table [])
  exact .around (.phrase _ selected opens) sends
    (.text ((inert_orderText sorted).append (inert_partText limit offset)))

/-- A subquery sends what its condition sends. -/
theorem Subquery.sends {sub : Subquery} {cs : List (Operator × Operand)}
    (id : Quiet sub.id.column) (table : Quiet sub.table)
    (joins : ∀ clause ∈ sub.joins, Quiet clause.text)
    (columns : ∀ refs, sub.grouping = some refs → ∀ ref ∈ refs, Quiet ref.column)
    (sends : sub.condition.fragment.Sends cs) :
    (Restriction.identifiers sub).fragment.Sends cs := by
  have quiet : Quiet (" WHERE " ++ sub.id.text ++ " IN (") := by
    simp only [quiet_append]
    exact ⟨⟨by decide, (plain_column id).1⟩, by decide⟩
  have opens := ((show Opens " WHERE " by decide).append sub.id.text).append " IN ("
  have selected : Quiet ("SELECT " ++ sub.id.text ++ " FROM " ++ fromText sub.table sub.joins) := by
    simp only [quiet_append]
    exact ⟨⟨⟨by decide, (plain_column id).1⟩, by decide⟩, quiet_fromText table joins⟩
  have selects := ((show Opens "SELECT " by decide).append sub.id.text).append " FROM "
  have first := Sends.phrase _ selected (selects.append (fromText sub.table sub.joins))
  have inner : sub.fragment.Sends cs := by
    unfold Subquery.fragment
    cases hg : sub.grouping with
    | none => exact (first.append (.phrase " WHERE " (by decide) (by decide))).append sends
    | some refs =>
      have grouped : Quiet (" GROUP BY " ++ commaText (refs.map ColumnRef.text) ++ " HAVING ") := by
        simp only [quiet_append]
        exact ⟨⟨by decide, quiet_commaColumns (columns refs hg)⟩, by decide⟩
      have groups := ((show Opens " GROUP BY " by decide).append
        (commaText (refs.map ColumnRef.text))).append " HAVING "
      exact (first.append (.phrase _ grouped groups)).append sends
  exact .around (.phrase _ quiet opens) inner (.phrase ")" (by decide) (by decide))

section

variable {s : Schema} {name : String} {root : Entity} {f : CompiledFilter} {q q' : Selection}
  (names : ∀ name ∈ s.storageNames, Quiet name)

include names

theorem quiet_of_joinClauses {joins : Joins} {clauses : List (List JoinClause)}
    (h : joins.mapM (joinClauses s) = .ok clauses) :
    ∀ clause ∈ clauses.flatten, Quiet clause.text := by
  intro clause mem
  obtain ⟨some, hsome, mem⟩ := List.mem_flatten.mp mem
  obtain ⟨j, _, hj⟩ := exists_of_forall₂ (mapM_eq_ok.mp h) hsome
  obtain ⟨table, column, other⟩ := mem_storageNames_of_joinClauses hj mem
  exact quiet_joinClause (names _ table) (names _ column) (names _ other)

/-- The rows that a statement keeps are told by the constants of the predicate alone. -/
theorem Restricts.sends (hroot : s.entity name = .ok root) (compiled : f.Compiled s root)
    (typed : ∀ c ∈ Formula.leavesOf f.predicate, ∃ type, c.HasType s root f.joins type)
    {r : Restriction} (h : Restricts s root f r) :
    r.fragment.Sends ((Formula.leavesOf f.predicate).flatMap Comparison.constants) := by
  have here := Schema.mem_entities hroot
  have id := names _ (Schema.idColumn_mem_storageNames here)
  have table := names _ (Schema.table_mem_storageNames here)
  cases h with
  | all nothing =>
    rw [nothing]
    exact .nil
  | rows something _ _ h =>
    rw [something] at typed ⊢
    exact (Sends.phrase " WHERE " (by decide) (by decide)).append (h.sends here names typed)
  | joined something _ made h =>
    rw [something] at typed ⊢
    refine Subquery.sends id table (quiet_of_joinClauses names made) ?_ (h.sends here names typed)
    rintro _ ⟨⟩
  | grouped something _ made columns h =>
    rw [something] at typed ⊢
    refine Subquery.sends id table (quiet_of_joinClauses names made) ?_ (h.sends here names typed)
    rintro _ ⟨⟩ ref mem
    rcases List.mem_cons.mp mem with rfl | mem
    · exact id
    · obtain ⟨a, ha, href⟩ := exists_of_forall₂ (mapM_eq_ok.mp columns) mem
      obtain ⟨p, hp, c, hc, _, shared⟩ := compiled.shared_of_mem_groupBy ha
      cases something.symm.trans hp
      obtain ⟨_, typed⟩ := typed c hc
      obtain ⟨_, read⟩ := typed.reads (Comparison.mem_reads_of_attr? shared)
      exact names _ (mem_storageNames_of_columnRef here read href)

omit names

/-- Which rows are kept does not depend on their order nor on which part of them is asked for. -/
theorem restriction_congr (asks : q.Asks name f) (asks' : q'.Asks name f) :
    Sql.restriction s root q = Sql.restriction s root q' := by
  unfold Sql.restriction Selection.needsSubquery
  rw [asks.predicate, asks.joins, asks.aggregate, asks.groupBy, asks'.predicate, asks'.joins,
    asks'.aggregate, asks'.groupBy]

/-- The placeholders in the text are those of the values, numbered from one. -/
def Statement.Numbered (st : Statement) : Prop :=
  placeholders st.text.toList = (List.range' 1 st.binds.length).map Decimal.text

/-- **Placeholders and values go together.** The placeholders in the text of a compiled filter's
statement are `$1`, `$2` and so on from left to right, one for each value that is sent, and these
values are, in their order, what the literals and the lists of the predicate are sent as. The
statement that counts the records is sent with the same values. -/
theorem Statement.select_sends_constants {nullSafe : Bool} {filter : String} {st : Statement}
    (names : ∀ name ∈ s.storageNames, '$' ∉ name.toList)
    (compiled : s.compileFilter nullSafe filter name = .ok f) (asks : q.Asks name f)
    (order : ∀ k ∈ q.order, '$' ∉ k.column.toList)
    (built : Statement.select s q = .ok st) :
    st.Numbered ∧
      List.Forall₂ Encodes ((Formula.leavesOf f.predicate).flatMap Comparison.constants)
        st.binds ∧
      ∀ q' : Selection, q'.Asks name f → ∃ counted, Statement.count s q' = .ok counted ∧
        counted.Numbered ∧ counted.binds = st.binds := by
  obtain ⟨root, hroot, typed⟩ := Schema.compileFilter_hasType compiled
  obtain ⟨root', hroot', compiled⟩ := Schema.compileFilter_compiled compiled
  cases hroot.symm.trans hroot'
  have here := Schema.mem_entities hroot
  have id := names _ (Schema.idColumn_mem_storageNames here)
  have table := names _ (Schema.table_mem_storageNames here)
  obtain ⟨e, he, built⟩ := bind_eq_ok.mp built
  rw [asks.entity, hroot] at he
  cases he
  obtain ⟨outputs, houtputs, built⟩ := bind_eq_ok.mp built
  obtain ⟨r, hr, built⟩ := bind_eq_ok.mp built
  cases built
  have kept := (restricts_of_ok asks hr).sends names hroot compiled typed
  have columns : ∀ output ∈ outputs, Quiet output.text := by
    intro output mem
    obtain ⟨column, hcolumn, rfl⟩ := mem_storageNames_of_outputColumns here houtputs mem
    exact (plain_column (names _ hcolumn)).1
  have sorted : ∀ t ∈ orderTerms root q.order, Quiet t.column.column := by
    intro t mem
    rcases List.mem_append.mp mem with mem | mem
    · obtain ⟨k, hk, rfl⟩ := List.mem_map.mp mem
      exact order k hk
    · rw [List.mem_singleton.mp mem]
      exact id
  have selects := Statement.sends q.limit q.offset columns table sorted kept
  refine ⟨placeholders_textFrom selects.inert 0, selects.encodes, fun q' asks' => ?_⟩
  -- Counting keeps the same rows, so that nothing but the outputs and the order is different.
  have count : ∀ output ∈ [Output.count], Quiet output.text :=
    List.forall_mem_singleton.mpr (by decide)
  have counts := Statement.sends none 0 count table (List.forall_mem_nil _) kept
  refine ⟨⟨[.count], root.table, [], r, [], none, 0⟩, ?_, placeholders_textFrom counts.inert 0, ?_⟩
  · unfold Statement.count
    rw [asks'.entity, hroot, ok_bind, restriction_congr asks' asks, hr]
    rfl
  · unfold Statement.binds Statement.fragment
    simp

end

namespace Pets

def byName : List OrderKey := [⟨"name", "name", .descending⟩]

/-- The second to the fourth of the persons that the filter keeps, by their names. -/
def page : Selection := ((Selection.ofFilter "Person" filter).withOrder byName).paged 3 1

end Pets

open Pets in
theorem select_sends_constants_pets :
    ∃ st, Statement.select schema page = .ok st ∧
      placeholders st.text.toList = [['1'], ['2']] ∧
      List.Forall₂ Encodes
        [(.iContains, .literal (.text "X_")), (.gt, .literal (.int 1))] st.binds := by
  have names : ∀ name ∈ schema.storageNames, '$' ∉ name.toList := by decide +kernel
  have compiled : schema.compileFilter true "name::icontains:X_ count\x7bpets\x7d::gt:1" "Person" =
      .ok filter := by cbv
  have asks : page.Asks "Person" filter := ⟨rfl, rfl, rfl, rfl, rfl⟩
  have sorted : schema.resolveOrder "Person" [⟨"name", .descending⟩] = .ok byName := by rfl
  obtain ⟨st, built⟩ : Succeeds (Statement.select schema page) := ⟨_, rfl⟩
  obtain ⟨numbered, encodes, _⟩ := Statement.select_sends_constants names compiled asks
    (fun k hk => names _ (mem_storageNames_of_resolveOrder sorted hk)) built
  have two : st.binds.length = 2 := encodes.length_eq.symm
  refine ⟨st, built, ?_, encodes⟩
  unfold Statement.Numbered at numbered
  rw [numbered, two]
  rfl

end EntityQuery.Sql
