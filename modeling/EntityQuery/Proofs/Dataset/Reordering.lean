import EntityQuery.Proofs.Dataset.Contents
import EntityQuery.Proofs.Dataset.Counting
import EntityQuery.Proofs.Dataset.Order
import EntityQuery.Proofs.Dataset.Union
import EntityQuery.Proofs.Filter.Soundness
import EntityQuery.Proofs.Preparation

/-!
# The order in which a dataset has been filled

**What a selection finds does not depend on the order in which a dataset has been filled**
(`select_of_reordered_calls`), but for one thing. The bindings of a record, and with them the groups
that they form, are the same in another order; counting does not depend on the order
(`Aggregate.Counts.exists_apply_eq`), and records that are told apart by their identifiers have only
one order (`pairwise_select`).

What does depend on it is the value that a group has for an attribute, which is read at its first
binding (`groupValue`): values that share their key fall into one group, and it matters if a count
tells them apart (`CountsByKey`). An integer and a text that says the same are such values
(`select_depends_on_order`); integers by themselves are not (`countsByKey_of_integers`).
-/

namespace EntityQuery

/-! ## Comparing with a count -/

namespace Value

theorem compare_int_swap (i : Int64) (v : Value) :
    (int i).compare v = (v.compare (int i)).map Ordering.swap := by
  cases v with
  | int j => exact congrArg some Std.OrientedOrd.eq_swap
  | float f => exact Decimal.compareFloats_swap f (Decimal.ofInt64 i)
  | null | bool | text | date | dateTime | timestamp | uuid => rfl

/-- Null equals nothing else, so that it matters only where both are null. -/
theorem sameOrNull_eq {v w : Value} (present : (v.isNull && w.isNull) = false) :
    v.sameOrNull w = v.equals w := by
  unfold sameOrNull
  rw [present]
  split
  · next null =>
    rcases Bool.or_eq_true_iff.mp null with null | null
    · rw [eq_null_of_isNull null]
      simp [equals]
    · rw [eq_null_of_isNull null]
      simp [equals]
  · rfl

end Value

namespace Comparison

variable {c : Comparison} {v w : Value} {i : Int64}

/-- A comparison with an integer goes by the order, except where it asks for null. -/
theorem truth_int_right (same : v.compare (.int i) = w.compare (.int i))
    (asks : c.operator ≠ .isNull) : c.truth (.one v) (.one (.int i)) =
      c.truth (.one w) (.one (.int i)) := by
  have one : c.compareOne v (.int i) = c.compareOne w (.int i) := by
    unfold compareOne
    rw [Value.sameOrNull_eq (Bool.and_false _), Value.sameOrNull_eq (Bool.and_false _),
      Value.equals, Value.equals, same]
    split
    · rfl
    · split
      · cases v.text? <;> cases w.text? <;> rfl
      · rfl
  have positive (u : Value) : c.positive u (.one (.int i)) = c.compareOne u (.int i) := by
    unfold positive
    split <;> simp_all
  unfold truth
  dsimp only
  rw [positive, positive, one]

theorem truth_int_left (same : v.compare (.int i) = w.compare (.int i)) :
    c.truth (.one (.int i)) (.one v) = c.truth (.one (.int i)) (.one w) := by
  have same : (Value.int i).compare v = (Value.int i).compare w := by
    rw [Value.compare_int_swap, Value.compare_int_swap, same]
  have one : c.compareOne (.int i) v = c.compareOne (.int i) w := by
    unfold compareOne
    rw [Value.sameOrNull_eq rfl, Value.sameOrNull_eq rfl, Value.equals, Value.equals, same]
    rfl
  have positive : c.positive (.int i) (.one v) = c.positive (.int i) (.one w) := by
    unfold positive
    cases c.operator <;> simp [one]
  unfold truth
  dsimp only
  rw [positive]

end Comparison

/-- Whether the function counts. -/
def Aggregate.Counts (f : Aggregate) : Prop := f = .count ∨ f = .countDistinct

/-- The comparison applies no function but those that count. -/
def Comparison.OnlyCounts (c : Comparison) : Prop :=
  ∀ f a, c.left = .aggregate f a ∨ c.right = .aggregate f a → f.Counts

/-- How many values a function that counts finds does not depend on their order. -/
theorem Aggregate.Counts.exists_apply_eq {f : Aggregate} (counts : f.Counts) {vs ws : List Value}
    (perm : vs.Perm ws) :
    ∃ n ≤ vs.length, f.apply vs = .int (Int64.ofNat n) ∧ f.apply ws = .int (Int64.ofNat n) := by
  have present := perm.filter (!·.isNull)
  rcases counts with rfl | rfl
  · refine ⟨_, List.length_filter_le _ _, rfl, ?_⟩
    exact congrArg (fun n => Value.int (Int64.ofNat n)) present.length_eq.symm
  · refine ⟨_, ?_, rfl, ?_⟩
    · rw [length_eraseDups]
      refine (List.toFinset_card_le _).trans ?_
      rw [List.length_map]
      exact List.length_filter_le _ _
    · show Value.int (Int64.ofNat _) = .int (Int64.ofNat _)
      rw [length_eraseDups, length_eraseDups, List.toFinset_eq_of_perm _ _ (present.map _).symm]

namespace Evaluator

variable {root : Record} {group group' : List Binding}

/-! ## Groups -/

/-- No count that the group can have tells its values of the attribute apart. -/
def CountsAlike (root : Record) (group : List Binding) (a : AttrRef) : Prop :=
  ∀ b ∈ group, ∀ b' ∈ group, ∀ n ≤ group.length,
    (value root b a).compare (.int (Int64.ofNat n)) =
      (value root b' a).compare (.int (Int64.ofNat n))

/-- The value that a group has for an attribute. -/
def groupValue (root : Record) (group : List Binding) (a : AttrRef) : Value :=
  (group.head?.map fun b => value root b a).getD .null

theorem groupValue_alike (perm : group.Perm group') {a : AttrRef} {n : Nat}
    (alike : CountsAlike root group a) (small : n ≤ group.length) :
    (groupValue root group a).compare (.int (Int64.ofNat n)) =
      (groupValue root group' a).compare (.int (Int64.ofNat n)) := by
  cases group with
  | nil => rw [perm.nil_eq]
  | cons b rest =>
    cases group' with
    | nil => cases perm.eq_nil
    | cons b' rest' =>
      exact alike b List.mem_cons_self b' (perm.mem_iff.mpr List.mem_cons_self) n small

theorem exists_groupOperand_count (perm : group.Perm group') {f : Aggregate} (counts : f.Counts)
    (a : AttrRef) : ∃ n ≤ group.length,
      groupOperand root group (.aggregate f a) = .one (.int (Int64.ofNat n)) ∧
      groupOperand root group' (.aggregate f a) = .one (.int (Int64.ofNat n)) := by
  obtain ⟨n, small, before, after⟩ := counts.exists_apply_eq (perm.map fun b => value root b a)
  rw [List.length_map] at small
  exact ⟨n, small, congrArg OperandValue.one before, congrArg OperandValue.one after⟩

theorem groupOperand_perm (perm : group.Perm group') {o : Operand} (single : o.attr? = none)
    (counts : ∀ f a, o = .aggregate f a → f.Counts) :
    groupOperand root group o = groupOperand root group' o := by
  cases o with
  | attr a => cases single
  | aggregate f a =>
    obtain ⟨n, -, before, after⟩ := exists_groupOperand_count perm (counts f a rfl) a
    rw [before, after]
  | literal | list | none => rfl

/-- A comparison with a count says the same of a group in any order, unless a count tells the values
apart that it is compared with. -/
theorem truth_group_perm (perm : group.Perm group') {c : Comparison} (counts : c.OnlyCounts)
    (function : c.isAggregate = true)
    (asks : c.operator = .isNull → c.right.isAggregate = false)
    (alike : ∀ a, c.left.attr? = some a ∨ c.right.attr? = some a →
      CountsAlike root group a) :
    c.truth (groupOperand root group c.left) (groupOperand root group c.right) =
      c.truth (groupOperand root group' c.left) (groupOperand root group' c.right) := by
  obtain ⟨left, operator, negate, nullSafe, right⟩ := c
  cases left with
  | attr a =>
    cases right with
    | aggregate f a' =>
      obtain ⟨n, small, before, after⟩ := exists_groupOperand_count perm (counts f a' (.inr rfl)) a'
      dsimp only
      rw [before, after]
      refine Comparison.truth_int_right ?_ fun null => nomatch asks null
      exact groupValue_alike perm (alike a (.inl rfl)) small
    | attr | literal | list | none => cases function
  | aggregate f a =>
    cases right with
    | attr a' =>
      obtain ⟨n, small, before, after⟩ := exists_groupOperand_count perm (counts f a (.inl rfl)) a
      dsimp only
      rw [before, after]
      exact Comparison.truth_int_left (groupValue_alike perm (alike a' (.inr rfl)) small)
    | aggregate | literal | list | none =>
      exact congrArg₂ _ (groupOperand_perm perm rfl fun f a h => counts f a (.inl h))
        (groupOperand_perm perm rfl fun f a h => counts f a (.inr h))
  | literal | list | none =>
    cases right with
    | attr => cases function
    | aggregate | literal | list | none =>
      exact congrArg₂ _ rfl (groupOperand_perm perm rfl fun f a h => counts f a (.inr h))

theorem groupTruth_perm (perm : group.Perm group') {p : Predicate}
    (leaves : ∀ c ∈ p.leaves, c.isAggregate = true →
      c.truth (groupOperand root group c.left) (groupOperand root group c.right) =
        c.truth (groupOperand root group' c.left) (groupOperand root group' c.right)) :
    groupTruth root group p = groupTruth root group' p := by
  have rows {p : Predicate} (h : p.isAggregate = false) :
      groupTruth root group p = groupTruth root group' p := by
    rw [groupTruth_of_rows h, groupTruth_of_rows h]
    exact Truth.any_congr fun t => (perm.map _).mem_iff
  induction p with
  | and p q ihp ihq =>
    have left := ihp fun c hc => leaves c (List.mem_append_left _ hc)
    have right := ihq fun c hc => leaves c (List.mem_append_right _ hc)
    by_cases h : Predicate.isAggregate (.and p q) = true
    · rw [groupTruth, groupTruth, if_pos h, if_pos h, left, right]
    · exact rows (Bool.eq_false_iff.mpr h)
  | or p q ihp ihq =>
    have left := ihp fun c hc => leaves c (List.mem_append_left _ hc)
    have right := ihq fun c hc => leaves c (List.mem_append_right _ hc)
    by_cases h : Predicate.isAggregate (.or p q) = true
    · rw [groupTruth, groupTruth, if_pos h, if_pos h, left, right]
    · exact rows (Bool.eq_false_iff.mpr h)
  | not p ih =>
    by_cases h : Predicate.isAggregate (.not p) = true
    · rw [groupTruth, groupTruth, if_pos h, if_pos h, ih leaves]
    · exact rows (Bool.eq_false_iff.mpr h)
  | leaf c =>
    by_cases h : c.isAggregate = true
    · have function : Predicate.isAggregate (.leaf c) = true := h
      rw [groupTruth, groupTruth, if_pos function, if_pos function]
      exact leaves c (List.mem_singleton_self c) h
    · exact rows (Bool.eq_false_iff.mpr h)

/-- There is a group for every binding. -/
theorem any_groups_iff {groupBy : List AttrRef} {bindings : List Binding}
    {test : List Binding → Bool} :
    (groups root groupBy bindings).any test = true ↔ ∃ b ∈ bindings,
      test (bindings.filter (groupKey root groupBy · = groupKey root groupBy b)) = true := by
  simp [groups, List.mem_eraseDups]

/-! ## Records that are kept -/

/-- What a count says of a value of a grouping attribute goes by the key of the value, as far as one
record is concerned. -/
def CountsByKey (ev : Evaluator) (q : Selection) (root : Record) : Prop :=
  ∀ a ∈ q.groupBy, ∀ b ∈ ev.expand root, ∀ b' ∈ ev.expand root,
    (value root b a).key = (value root b' a).key → ∀ n ≤ (ev.expand root).length,
      (value root b a).compare (.int (Int64.ofNat n)) =
        (value root b' a).compare (.int (Int64.ofNat n))

theorem CountsByKey.countsAlike {ev : Evaluator} {q : Selection} (byKey : ev.CountsByKey q root)
    (key : List String) {a : AttrRef} (ha : a ∈ q.groupBy) :
    CountsAlike root ((ev.expand root).filter (groupKey root q.groupBy · = key)) a := by
  intro b hb b' hb' n small
  obtain ⟨hb, hkey⟩ := List.mem_filter.mp hb
  obtain ⟨hb', hkey'⟩ := List.mem_filter.mp hb'
  have keys : groupKey root q.groupBy b = groupKey root q.groupBy b' :=
    (of_decide_eq_true hkey).trans (of_decide_eq_true hkey').symm
  exact byKey a ha b hb b' hb' (List.map_inj_left.mp keys a ha) n
    (small.trans (List.length_filter_le _ _))

/-- Counts go by the keys of integers. -/
theorem countsByKey_of_integers {ev : Evaluator} {q : Selection}
    (integers : ∀ a ∈ q.groupBy, ∀ b ∈ ev.expand root,
      value root b a = .null ∨ ∃ i, value root b a = .int i) : ev.CountsByKey q root := by
  intro a ha b hb b' hb' same n _
  rw [Value.eq_of_key_eq (integers a ha b hb) (integers a ha b' hb') same]

/-- Whether a record is kept does not depend on the order of its bindings. -/
theorem keeps_perm {s : Schema} {e : Entity} {f : CompiledFilter} {q : Selection} {name : String}
    {ev ev' : Evaluator} (perm : (ev.expand root).Perm (ev'.expand root))
    (compiled : f.Compiled s e) (asks : q.Asks name f)
    (counts : ∀ c ∈ Formula.leavesOf f.predicate, c.OnlyCounts)
    (single : ∀ c ∈ Formula.leavesOf f.predicate, c.operator = .isNull →
      c.right.isAggregate = false)
    (byKey : ev.CountsByKey q root) : ev.keeps q root = ev'.keeps q root := by
  unfold keeps
  cases hp : q.predicate with
  | none => rfl
  | some p =>
    have predicate : f.predicate = some p := asks.predicate ▸ hp
    have leaves : Formula.leavesOf f.predicate = p.leaves := by rw [predicate]; rfl
    rw [leaves] at counts single
    have aggregate : q.aggregate = p.isAggregate := by
      rw [asks.aggregate, compiled.eq, predicate]
      rfl
    dsimp only
    rw [aggregate, Bool.eq_iff_iff]
    cases h : p.isAggregate with
    | false =>
      simp only [Bool.false_eq_true, if_false, List.any_eq_true]
      exact exists_congr fun b => and_congr_left' perm.mem_iff
    | true =>
      have groupBy : q.groupBy = p.groupingAttributes := by
        rw [asks.groupBy, compiled.eq, predicate]
        exact if_pos h
      rw [if_pos rfl, if_pos rfl, any_groups_iff, any_groups_iff]
      refine exists_congr fun b => and_congr perm.mem_iff ?_
      have group := perm.filter (groupKey root q.groupBy · = groupKey root q.groupBy b)
      rw [groupTruth_perm group fun c hc function => ?_]
      refine truth_group_perm group (counts c hc) function (single c hc) fun a shared => ?_
      refine byKey.countsAlike _ ?_
      rw [groupBy]
      exact Predicate.mem_groupingAttributes.mpr ⟨c, hc, function, shared⟩

end Evaluator

namespace Dataset

variable {d d' : Dataset} {s : Schema} {q : Selection} {f : CompiledFilter} {name filter : String}
  {nullSafe : Bool} {type : ScalarType}

theorem matching_eq (hroot : Succeeds (s.entity q.entity)) :
    d.matching s q = (q.joins.mapM (JoinPlan.of s)).map fun plans =>
      (d.rows q.entity).filter (Evaluator.keeps ⟨d, q.joins, plans⟩ q) := by
  obtain ⟨e, he⟩ := hroot
  unfold matching Evaluator.of
  rw [he]
  cases q.joins.mapM (JoinPlan.of s) <;> rfl

/-- A test for null is not made of what a function finds. -/
theorem single_of_compiled (compiled : s.compileFilter nullSafe filter name = .ok f) :
    ∀ c ∈ Formula.leavesOf f.predicate, c.operator = .isNull → c.right.isAggregate = false := by
  intro c hc asks
  obtain ⟨root, -, typed⟩ := Schema.compileFilter_hasType compiled
  obtain ⟨type, typed⟩ := typed c hc
  have right := typed.right
  rw [asks] at right
  generalize c.right = o at right ⊢
  cases right with
  | null => rfl
  | literal notNull | read notNull => exact absurd rfl notNull

/-- Datasets that hold the same keep the same records. -/
theorem matching_perm (compiled : s.compileFilter nullSafe filter name = .ok f)
    (asks : q.Asks name f) (counts : ∀ c ∈ Formula.leavesOf f.predicate, c.OnlyCounts)
    (filled : d.Filled) (filled' : d'.Filled) (same : d.SameContents d')
    (byKey : ∀ ev, Evaluator.of d s q = .ok ev → ∀ o ∈ d.rows name, ev.CountsByKey q o)
    {plans : List JoinPlan} (hplans : q.joins.mapM (JoinPlan.of s) = .ok plans) :
    ((d.rows name).filter (Evaluator.keeps ⟨d, q.joins, plans⟩ q)).Perm
      ((d'.rows name).filter (Evaluator.keeps ⟨d', q.joins, plans⟩ q)) := by
  obtain ⟨e, -, sound⟩ := Schema.compileFilter_compiled compiled
  have hev : Evaluator.of d s q = .ok ⟨d, q.joins, plans⟩ := bind_eq_ok.mpr ⟨plans, hplans, rfl⟩
  have keeps : ∀ o ∈ d.rows name, Evaluator.keeps ⟨d, q.joins, plans⟩ q o =
      Evaluator.keeps ⟨d', q.joins, plans⟩ q o := by
    intro o ho
    have bindings : (Evaluator.expand ⟨d, q.joins, plans⟩ o).Perm
        (Evaluator.expand ⟨d', q.joins, plans⟩ o) := Evaluator.expand_perm same filled filled'
    exact Evaluator.keeps_perm bindings sound asks counts (single_of_compiled compiled)
      (byKey _ hev o ho)
  rw [List.filter_congr keeps]
  exact (same.rows name).filter _

theorem pageOf_sublist {α : Type} (items : List α) (offset : Nat) (limit : Option Nat) :
    (pageOf items offset limit).Sublist items := by
  cases limit with
  | none => exact List.drop_sublist ..
  | some n => exact (List.take_sublist ..).trans (List.drop_sublist ..)

/-- Records are selected strictly in order. -/
theorem pairwise_select {selected : List Record} (filled : d.Filled) (notFloat : type ≠ .float)
    (ids : ∀ r ∈ d.rows q.entity, r.id.type? = some type)
    (fields : ∀ key ∈ q.order, Record.Typed (d.rows q.entity) key.attr)
    (done : d.select s q = .ok selected) :
    selected.Pairwise fun a b => a.InOrder b q.order ∧ a ≠ b := by
  obtain ⟨kept, matched, done⟩ := bind_eq_ok.mp done
  cases done
  have within : kept.Sublist (d.rows q.entity) := by
    obtain ⟨_, _, matched⟩ := bind_eq_ok.mp matched
    obtain ⟨_, _, matched⟩ := bind_eq_ok.mp matched
    cases matched
    exact List.filter_sublist
  have nodup : (d.rows q.entity).Nodup := (filled.exact q.entity).nodup_keys.of_map _
  have orders := Record.orders_compareRecords notFloat ids fields
  have perm := stableSort_perm (fun a b => compareRecords a b q.order = .lt) kept
  refine List.Pairwise.sublist (pageOf_sublist ..) (List.Pairwise.and ?_ ?_)
  · have sorted := pairwise_stableSort orders fun b hb => within.subset hb
    refine sorted.imp_of_mem fun ha hb => ?_
    have ha := within.subset (perm.mem_iff.mp ha)
    have hb := within.subset (perm.mem_iff.mp hb)
    exact (Record.inOrder_iff notFloat ids fields ha hb).mpr
  · exact perm.nodup_iff.mpr (nodup.sublist within)

/-- Datasets that hold the same select the same records. -/
theorem SameContents.select_eq (same : d.SameContents d')
    (compiled : s.compileFilter nullSafe filter name = .ok f)
    (asks : q.Asks name f) (counts : ∀ c ∈ Formula.leavesOf f.predicate, c.OnlyCounts)
    (filled : d.Filled) (filled' : d'.Filled) (notFloat : type ≠ .float)
    (ids : ∀ r ∈ d.rows name, r.id.type? = some type)
    (fields : ∀ key ∈ q.order, Record.Typed (d.rows name) key.attr)
    (byKey : ∀ ev, Evaluator.of d s q = .ok ev → ∀ o ∈ d.rows name, ev.CountsByKey q o) :
    d.select s q = d'.select s q := by
  obtain ⟨root, known, -⟩ := Schema.compileFilter_compiled compiled
  have known : Succeeds (s.entity q.entity) := ⟨root, asks.entity ▸ known⟩
  unfold select
  rw [matching_eq known, matching_eq known, asks.entity]
  cases hplans : q.joins.mapM (JoinPlan.of s) with
  | error e => rfl
  | ok plans =>
    have perm := matching_perm compiled asks counts filled filled' same byKey hplans
    have orders := Record.orders_compareRecords notFloat ids fields
    have strict := Record.strictlyOrdered notFloat ids fields (filled.exact name).nodup_keys
    have sorted := stableSort_eq_of_perm orders (fun o ho => List.mem_of_mem_filter ho)
      (fun a ha b hb => (strict.eq_iff a (List.mem_of_mem_filter ha) b
        (List.mem_of_mem_filter hb)).mp) perm
    exact congrArg (fun sorted => Except.ok (pageOf sorted q.offset q.limit)) sorted

/-- **A selection does not depend on the order of filling.** It gives the same, records or error, in
whatever order the calls have been made that filled the dataset, as long as the filter applies no
function but those that count and no count tells values apart that share their key. Its records are
then strictly in order: by the first sort key that tells them apart, nulls last, else by their
identifiers. -/
theorem select_of_reordered_calls {calls calls' : List Change} (perm : calls.Perm calls')
    (distinct : ∀ entity, ((recordsIn entity calls).map Record.key).Nodup)
    (compiled : s.compileFilter nullSafe filter name = .ok f) (asks : q.Asks name f)
    (counts : ∀ c ∈ Formula.leavesOf f.predicate, c.OnlyCounts) (notFloat : type ≠ .float)
    (ids : ∀ r ∈ recordsIn name calls, r.id.type? = some type)
    (fields : ∀ key ∈ q.order, Record.Typed (recordsIn name calls) key.attr)
    (byKey : ∀ ev, Evaluator.of (filledBy calls) s q = .ok ev →
      ∀ r ∈ recordsIn name calls, ev.CountsByKey q r) :
    (filledBy calls').select s q = (filledBy calls).select s q ∧
      Record.StrictlyOrdered (recordsIn name calls) q.order ∧
      ∀ selected, (filledBy calls).select s q = .ok selected →
        selected.Pairwise fun a b => a.InOrder b q.order ∧ a ≠ b := by
  have strict := Record.strictlyOrdered notFloat ids fields (distinct name)
  have same := sameContents_of_perm perm distinct
  have filled := filled_filledBy calls
  rw [← rows_filledBy (distinct name)] at ids fields byKey
  refine ⟨?_, strict, fun selected => ?_⟩
  · exact (same.select_eq compiled asks counts filled (filled_filledBy calls') notFloat ids fields
      byKey).symm
  · rw [← asks.entity] at ids fields
    exact pairwise_select filled notFloat ids fields

namespace Amounts

/-- Authors, with the amounts in which their books are there. -/
def entities : List EntityDeclaration :=
  [⟨"Author", "author", [.id "id" .integer, .association "books" .oneToMany "Book"]⟩,
    ⟨"Book", "book", [.id "id" .integer, .association "author" .manyToOne "Author",
      .scalar "amount" .integer]⟩]

def schema : Schema :=
  ⟨[⟨"Author", "author", "id",
      [⟨"id", "id", false, .scalar .integer⟩,
        ⟨"books", "books", true, .association ⟨.oneToMany, "Book", none, false, none, none⟩⟩]⟩,
    ⟨"Book", "book", "id",
      [⟨"id", "id", false, .scalar .integer⟩,
        ⟨"author", "author_id", true,
          .association ⟨.manyToOne, "Author", none, true, some "author_id", none⟩⟩,
        ⟨"amount", "amount", true, .scalar .integer⟩]⟩]⟩

def author (id : Int64) : Record := .new "Author" "id" (.int id)

/-- A book of the first author. -/
def book (id : Int64) (amount : Value) : Record :=
  ⟨"Book", .int id, [("id", .int id), ("amount", amount)], [("author", .int 1)], []⟩

def books : JoinNode := ⟨0, .root, "Author", "books", "books", .entity "Book"⟩

def amount : AttrRef := ⟨.join 0, .attribute "amount" "amount"⟩

def text : String := "books.amount::eq_prop:count\x7bbooks\x7d"

/-- Authors with some amount that is the number of their books of this amount. -/
def counted : CompiledFilter :=
  .ofPredicate (some (.leaf ⟨.attr amount, .eq, false, false,
    .aggregate .countDistinct ⟨.join 0, .attribute "id" "id"⟩⟩)) [books]

theorem compiled : schema.compileFilter false text "Author" = .ok counted := by
  have scanned : scan text = .ok [.word 0 (.plain text)] := by rfl
  have words : Formula.ofWords [.word 0 (.plain text)] =
      .ok (some (.leaf (.plain text))) := by rfl
  have parsed : Expression.parse (.plain text) =
      .ok ⟨"books.amount", none, .eq, false, true, .path "books" (some .count)⟩ := by rfl
  have segments : Path.segments "books.amount" = ["books", "amount"] := by rfl
  have resolved : schema.resolve "Author" "books.amount" [] =
      (.ok ⟨⟨.join 0, .attribute "amount" "amount"⟩, .integer, false⟩, [books]) := by
    unfold Schema.resolve
    rw [segments]
    rfl
  exact Schema.compileFilter_word rfl scanned words (Schema.compileWord_eq_ok parsed
    (Resolving.bind_eq_ok.mpr ⟨_, _, Resolving.bind_eq_ok.mpr ⟨_, _, resolved, rfl⟩, rfl⟩))

/-- The authors, the last one first. -/
def selection : Selection :=
  (Selection.ofFilter "Author" counted).withOrder [⟨"id", "id", .descending⟩]

theorem asks : selection.Asks "Author" counted := ⟨rfl, rfl, rfl, rfl, rfl⟩

theorem counts : ∀ c ∈ Formula.leavesOf counted.predicate, c.OnlyCounts := by
  intro c hc f a h
  rw [List.mem_singleton.mp hc] at h
  rcases h with h | h
  · cases h
  · cases h
    exact .inr rfl

/-- An author with two books that are there in these amounts, and one without books. -/
def shelving (x y : Value) : List Change :=
  [.insert (author 1), .insert (author 2), .insert (book 1 x), .insert (book 2 y)]

theorem distinct (x y : Value) (entity : String) :
    ((recordsIn entity (shelving x y)).map Record.key).Nodup := by
  by_cases authors : "Author" = entity
  · subst authors
    exact (by decide +kernel : ["n:1", "n:2"].Nodup)
  · by_cases books : "Book" = entity
    · subst books
      exact (by decide +kernel : ["n:1", "n:2"].Nodup)
    · have nothing : recordsIn entity (shelving x y) = [] := by
        simp [recordsIn, shelving, Change.record?, author, book, Record.new, authors, books]
      simp [nothing]

theorem ids (x y : Value) (entity : String) :
    ∀ r ∈ recordsIn entity (shelving x y), r.id.type? = some .integer := by
  intro r hr
  obtain ⟨c, hc, put⟩ := List.mem_filterMap.mp hr
  simp only [shelving, List.mem_cons, List.not_mem_nil, or_false] at hc
  rcases hc with rfl | rfl | rfl | rfl <;>
  · obtain ⟨-, bare⟩ := Option.ite_none_right_eq_some.mp put
    cases bare
    rfl

def evaluator : Evaluator :=
  ⟨filledBy (shelving (.int 2) (.int 2)), [books],
    [.link "Book" (.foreignKey "author" "author_id")]⟩

theorem byKey : ∀ r ∈ recordsIn "Author" (shelving (.int 2) (.int 2)),
    evaluator.CountsByKey selection r := by
  have first : (evaluator.expand (author 1)).map (Evaluator.value (author 1) · amount) =
      [.int 2, .int 2] := by rfl
  have second : (evaluator.expand (author 2)).map (Evaluator.value (author 2) · amount) =
      [.null] := by rfl
  have read {r : Record} {vs : List Value}
      (values : (evaluator.expand r).map (Evaluator.value r · amount) = vs)
      (integers : ∀ v ∈ vs, v = .null ∨ ∃ i, v = .int i) : evaluator.CountsByKey selection r := by
    refine Evaluator.countsByKey_of_integers fun a ha b hb => ?_
    rw [List.mem_singleton.mp ha]
    exact integers _ (values ▸ List.mem_map_of_mem hb)
  have authors : recordsIn "Author" (shelving (.int 2) (.int 2)) = [author 1, author 2] := by rfl
  rw [authors, List.forall_mem_cons, List.forall_mem_singleton]
  exact ⟨read first (by simp), read second (by simp)⟩

end Amounts

open Amounts in
theorem select_of_reordered_calls_shelved :
    (filledBy (shelving (.int 2) (.int 2)).reverse).select schema selection = .ok [author 1] ∧
      Record.StrictlyOrdered [author 1, author 2] selection.order := by
  have fields : ∀ key ∈ selection.order,
      Record.Typed (recordsIn "Author" (shelving (.int 2) (.int 2))) key.attr := by
    intro key hkey
    rw [List.mem_singleton.mp hkey]
    exact ⟨.integer, by decide, by decide +kernel⟩
  have evaluated : Evaluator.of (filledBy (shelving (.int 2) (.int 2))) schema selection =
      .ok evaluator := by rfl
  have notFloat : ScalarType.integer ≠ .float := by decide
  obtain ⟨same, strict, -⟩ := select_of_reordered_calls (List.reverse_perm _).symm
    (distinct (.int 2) (.int 2)) compiled asks counts notFloat (ids (.int 2) (.int 2) "Author")
    fields fun ev hev => by
      cases evaluated.symm.trans hev
      exact byKey
  exact ⟨same.trans rfl, strict⟩

open Amounts in
/-- One amount is an integer, and the other a text that says its key. The books form one group, with
the amount of the book that has been put in first. -/
theorem select_depends_on_order :
    Schema.declare entities = .ok schema ∧
    schema.compileFilter false text "Author" = .ok counted ∧
    (∀ c ∈ Formula.leavesOf counted.predicate, c.OnlyCounts) ∧
    (shelving (.int 2) (.text "n:2")).reverse.Perm (shelving (.int 2) (.text "n:2")) ∧
    (∀ entity, ((recordsIn entity (shelving (.int 2) (.text "n:2"))).map Record.key).Nodup) ∧
    (∀ entity, ∀ r ∈ recordsIn entity (shelving (.int 2) (.text "n:2")),
      r.id.type? = some .integer) ∧
    (filledBy (shelving (.int 2) (.text "n:2"))).select schema (.ofFilter "Author" counted) =
      .ok [author 1] ∧
    (filledBy (shelving (.int 2) (.text "n:2")).reverse).select schema
      (.ofFilter "Author" counted) = .ok [] := by
  exact ⟨rfl, compiled, counts, List.reverse_perm _, distinct _ _, ids _ _, rfl, rfl⟩

end Dataset

end EntityQuery
