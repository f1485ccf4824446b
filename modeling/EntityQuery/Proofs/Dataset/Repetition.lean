import EntityQuery.Proofs.Dataset.Counting
import Mathlib

/-!
# Values that are read repeatedly

A row that a path reaches is read at every binding that completes the way there, so that a function
is applied to its value as often as the other joins lead to rows (`values_repeat`). **Sums and
counts are those of the rows reached as long as no other join leads to several rows where the path
has a value** (`totals_repeat`, `Totals`). Where one does, values are repeated, and a sum with them
(`sum_repeated_by_tags`); only counting identifiers is not affected, as it counts each of them once.
-/

namespace EntityQuery

/-- The values other than null that a path reads of the rows that it reaches, each row once. -/
def Dataset.valuesBy (d : Dataset) (s : Schema) (e : Entity) (path : String) (root : Record) :
    List Value :=
  match (s.route path e "" (Path.segments path)).2 with
  | .ok destination => (d.reachedBy s e path root).filterMap (·.present? destination.column)
  | .error _ => []

/-- Whether what a path stands for is the identifier of the records to which it leads. -/
def Schema.identifies (s : Schema) (e : Entity) (path : String) : Bool :=
  match (s.route path e "" (Path.segments path)).2 with
  | .ok destination => destination.identifier
  | .error _ => false

theorem Dataset.isNull_of_mem_valuesBy {d : Dataset} {s : Schema} {e : Entity} {path : String}
    {root : Record} {v : Value} (h : v ∈ d.valuesBy s e path root) : v.isNull = false := by
  unfold valuesBy at h
  split at h
  · obtain ⟨r, _, hr⟩ := List.mem_filterMap.mp h
    unfold Row.present? at hr
    split at hr
    · cases hr
    · next present =>
      cases hr
      simpa using present
  · cases h

theorem Aggregate.apply_count {values : List Value} (present : ∀ v ∈ values, v.isNull = false) :
    Aggregate.count.apply values = .int (Int64.ofNat values.length) := by
  show Value.int (Int64.ofNat (values.filter (!·.isNull)).length) = _
  rw [List.filter_eq_self.mpr fun v hv => by rw [present v hv]; rfl]

/-- Adding integers gives their sum if no sum on the way leaves the range. -/
theorem foldlM_addWithin {sum : Int} {is : List Int64}
    (within : ∀ init, init <+: is → Decimal.IsInt64 (sum + (init.map Int64.toInt).sum)) :
    (is.map Value.int).foldlM addWithin sum = some (sum + (is.map Int64.toInt).sum) := by
  induction is generalizing sum with
  | nil => simp
  | cons i is ih =>
    have first : Decimal.IsInt64 (sum + i.toInt) := by
      simpa using within [i] (List.prefix_append [i] is)
    have step : addWithin sum (.int i) = some (sum + i.toInt) := if_pos first
    rw [List.map_cons, List.foldlM_cons, step, Option.bind_eq_bind, Option.bind_some, ih]
    · rw [List.map_cons, List.sum_cons, Int.add_assoc]
    · intro init hinit
      have next := within (i :: init) (List.cons_prefix_cons.mpr ⟨rfl, hinit⟩)
      rwa [List.map_cons, List.sum_cons, ← Int.add_assoc] at next

theorem Aggregate.apply_sum {is : List Int64}
    (within : ∀ init, init <+: is → Decimal.IsInt64 (init.map Int64.toInt).sum) :
    Aggregate.sum.apply (is.map .int) =
      if is = [] then .null else .int (Int64.ofInt (is.map Int64.toInt).sum) := by
  have present : (is.map Value.int).filter (!·.isNull) = is.map Value.int :=
    List.filter_eq_self.mpr (List.forall_mem_map.mpr fun _ _ => rfl)
  have total : (is.map Value.int).foldlM addWithin 0 = some (0 + (is.map Int64.toInt).sum) :=
    foldlM_addWithin fun init hinit => by simpa using within init hinit
  unfold apply
  dsimp only
  rw [present, total, Int.zero_add]
  cases is <;> simp

namespace Evaluator

variable {d : Dataset} {s : Schema} {q : Selection} {ev : Evaluator} {e : Entity} {path : String}

/-- Where the attribute has a value no join beside the steps of the path leads to several rows. -/
def SingleBeside (s : Schema) (e : Entity) (ev : Evaluator) (root : Record) (path : String)
    (a : AttrRef) : Prop :=
  ∀ b ∈ ev.expand root, (value root b a).isNull = false → ∀ j ∈ ev.joins,
    j.path ∉ (s.route path e "" (Path.segments path)).1.map (·.path) →
      (ev.reach root j b).length ≤ 1

/-- The attribute has a value where something of its row is present. -/
theorem isSome_present_iff {root : Record} {b : Binding} {a : AttrRef} :
    ((row root b a.source).bind (·.present? a.column)).isSome ↔
      (value root b a).isNull = false := by
  rw [value_eq]
  cases row root b a.source with
  | none => simp [Value.isNull]
  | some r => cases h : (r.read a.column).isNull <;> simp [Row.present?, h]

theorem groupOperand_eq {root : Record} {bindings : List Binding} {f : Aggregate} {a : AttrRef} :
    groupOperand root bindings (.aggregate f a) =
      .one (f.apply (bindings.filterMap fun b =>
        (row root b a.source).bind (·.present? a.column))) := by
  rw [← filter_values]
  show OperandValue.one (f.apply (bindings.map fun b => value root b a)) = _
  congr 1
  simp only [Aggregate.apply, List.filter_filter, Bool.and_self]

/-- What is read is each of the values once or several times, and all of them once exactly on the
condition `once`. -/
def Repeats (values read : List Value) (once : Prop) : Prop :=
  ∃ repeated : List (Nat × Value), repeated.map Prod.snd = values ∧
    read.Perm (repeated.flatMap fun p => List.replicate p.1 p.2) ∧ (∀ p ∈ repeated, 0 < p.1) ∧
    ((∀ p ∈ repeated, p.1 = 1) ↔ once)

section

variable (hev : Evaluator.of d s q = .ok ev) (sound : q.joins.Sound s e)

include hev sound

/-- The values that an operand reads at the bindings of a record are those of the rows that its path
reaches, repeated. -/
theorem values_repeat {steps : List Step} {destination : Destination} {way : List JoinNode}
    {source : Source} (route : s.route path e "" (Path.segments path) = (steps, .ok destination))
    (leads : q.joins.Way .root way source) (hway : way.map JoinNode.step = steps) (root : Record) :
    let read := (ev.expand root).filterMap fun b =>
      (row root b source).bind (·.present? destination.column)
    let once := SingleBeside s e ev root path ⟨source, destination.column⟩
    Repeats (d.valuesBy s e path root) read once ∧ (once → read = d.valuesBy s e path root) := by
  intro read once
  have values : d.valuesBy s e path root =
      (d.reached s (way.map JoinNode.step) (.entity root)).filterMap
        (·.present? destination.column) := by
    rw [Dataset.valuesBy, Dataset.reachedBy, route, hway]
  have off (j : JoinNode) : Joins.on way j = false ↔ j.path ∉ steps.map (·.path) := by
    have paths : steps.map (·.path) = way.map (·.path) := by
      rw [← hway, List.map_map]
      rfl
    rw [paths, Joins.on, decide_eq_false_iff_not]
  have single : once ↔ ∀ b ∈ ev.expand root,
      ((row root b source).bind (·.present? destination.column)).isSome →
        ∀ j ∈ q.joins, Joins.on way j = false → (ev.reach root j b).length ≤ 1 := by
    show SingleBeside s e ev root path ⟨source, destination.column⟩ ↔ _
    simp only [SingleBeside, route, off, joins_of hev,
      ← isSome_present_iff (a := ⟨source, destination.column⟩)]
  rw [values, single]
  exact ⟨filterMap_expand_repeats hev sound leads _, filterMap_expand hev sound leads⟩

end

/-- Sums, and counts of what is not an identifier, are made of the values of the rows that the path
reaches, each of them once or several times. If no other join leads to several rows where there is
such a value, they are the sum and the number of these values. -/
def Totals (d : Dataset) (s : Schema) (e : Entity) (ev : Evaluator) (root : Record) (path : String)
    (function : Option Aggregate) (o : Operand) : Prop :=
  ∀ f, function = some f → (f = .sum ∨ f = .count ∧ s.identifies e path = false) →
    ∃ a read, o = .aggregate f a ∧
      groupOperand root (ev.expand root) o = .one (f.apply read) ∧
      Repeats (d.valuesBy s e path root) read (SingleBeside s e ev root path a) ∧
      (SingleBeside s e ev root path a →
        (f = .count → groupOperand root (ev.expand root) o =
          .one (.int (Int64.ofNat (d.valuesBy s e path root).length))) ∧
        ∀ is, f = .sum → d.valuesBy s e path root = is.map .int →
          (∀ init, init <+: is → Decimal.IsInt64 (init.map Int64.toInt).sum) →
          groupOperand root (ev.expand root) o =
            .one (if is = [] then .null else .int (Int64.ofInt (is.map Int64.toInt).sum)))

theorem totals_of_ofPath (hev : Evaluator.of d s q = .ok ev) (sound : q.joins.Sound s e)
    {function : Option Aggregate} {o : Operand} (h : o.OfPath s e q.joins path function)
    (root : Record) : Totals d s e ev root path function o := by
  rintro f rfl kind
  obtain ⟨steps, destination, way, source, route, leads, hway, rfl⟩ := h
  obtain ⟨repeats, once⟩ := values_repeat hev sound route leads hway root
  -- The function stays as it is: neither a sum nor a count of this kind counts identifiers.
  have same : Operand.reading destination.identifier ⟨source, destination.column⟩ (some f) =
      .aggregate f ⟨source, destination.column⟩ := by
    have kept : f.countingMembers destination.identifier = f := by
      rcases kind with rfl | ⟨rfl, plain⟩
      · rfl
      · rw [Schema.identifies, route] at plain
        simp [Aggregate.countingMembers, show destination.identifier = false from plain]
    exact congrArg (Operand.aggregate · _) kept
  rw [same]
  refine ⟨_, _, rfl, groupOperand_eq, repeats, fun single => ⟨?_, ?_⟩⟩
  · rintro rfl
    rw [groupOperand_eq, once single,
      Aggregate.apply_count fun _ => Dataset.isNull_of_mem_valuesBy]
  · rintro is rfl ints within
    rw [groupOperand_eq, once single, ints, Aggregate.apply_sum within]

/-- **Other terms of a filter repeat the values of sums and counts**, exactly if one of their joins
leads to several rows where there is such a value. -/
theorem totals_repeat {nullSafe : Bool} {filter name : String} {f : CompiledFilter}
    (compiled : s.compileFilter nullSafe filter name = .ok f)
    (own : ∀ a ∈ f.groupBy, a.source = .root)
    (hev : Evaluator.of d s (.ofFilter name f) = .ok ev) :
    ∃ e tokens, s.entity name = .ok e ∧ scan filter = .ok tokens ∧ ∀ root,
      groups root f.groupBy (ev.expand root) = [ev.expand root] ∧
        List.Forall₂ (Comparison.OfWord (Totals d s e ev root)) (terms tokens)
          (Formula.leavesOf f.predicate) :=
  operands_of_compiled compiled own fun _ root _ _ _ sound reads =>
    totals_of_ofPath hev sound reads root

namespace Bookshelf

def prizes : JoinNode := ⟨0, .root, "Author", "prizes", "prizes", .collection⟩

def summed : Operand := .aggregate .sum ⟨.join 0, .element⟩

/-- Authors with prizes of five in all and the tag `a`. -/
def prized : CompiledFilter :=
  ⟨some (.and (.leaf ⟨summed, .eq, false, false, .literal (.int 5)⟩) (.leaf tagged)),
    [prizes, tags], true, []⟩

def prizedEvaluator : Evaluator :=
  ⟨stock, [prizes, tags], [.elements "author_prizes", .elements "author_tags"]⟩

def prizedText : String := "sum\x7bprizes\x7d:5 and tags:a"

def summing : Word := .plain "sum\x7bprizes\x7d:5"

theorem scanned_prized : scan prizedText =
    .ok [.word 0 summing, .word 14 (.plain "and"), .word 18 tagging] := by rfl

theorem parsed_summing : Expression.parse summing =
    .ok ⟨"prizes", some .sum, .eq, false, false, .literal "5"⟩ := by rfl

theorem compiled_prized : schema.compileFilter false prizedText "Author" = .ok prized := by
  have words : Formula.ofWords [.word 0 summing, .word 14 (.plain "and"), .word 18 tagging] =
      .ok (some (.and (.leaf summing) (.leaf tagging))) := by rfl
  exact Schema.compileFilter_and rfl scanned_prized words
    (Schema.compileWord_eq_ok parsed_summing rfl) (Schema.compileWord_eq_ok parsed_tagging rfl)

theorem evaluator_prized :
    Evaluator.of stock schema (.ofFilter "Author" prized) = .ok prizedEvaluator := by rfl

end Bookshelf

open Bookshelf in
/-- The prizes of the author with one tag are summed up as they are. -/
theorem totals_repeat_shelf :
    groupOperand laureate (prizedEvaluator.expand laureate) summed = .one (.int 7) := by
  have own : ∀ a ∈ prized.groupBy, a.source = .root := by simp [prized]
  obtain ⟨e, tokens, he, htokens, totals⟩ := totals_repeat compiled_prized own evaluator_prized
  cases he.symm.trans (rfl : schema.entity "Author" = .ok author)
  cases htokens.symm.trans scanned_prized
  obtain ⟨⟨x, hx, total, _⟩, _⟩ := List.forall₂_cons.mp (totals laureate).2
  cases hx.symm.trans parsed_summing
  obtain ⟨a, read, ha, _, _, exact⟩ := total .sum rfl (.inl rfl)
  cases ha
  have single :
      SingleBeside schema author prizedEvaluator laureate "prizes" ⟨.join 0, .element⟩ := by
    unfold SingleBeside
    decide +kernel
  have values : stock.valuesBy schema author "prizes" laureate = [3, 4].map Value.int := by rfl
  have within : ∀ init ∈ List.inits [(3 : Int64), 4],
      Decimal.IsInt64 (init.map Int64.toInt).sum := by decide +kernel
  exact (exact single).2 [3, 4] rfl values fun init h => within init ((List.mem_inits _ _).mpr h)

open Bookshelf in
/-- The one prize of the author with two tags is added twice. -/
theorem sum_repeated_by_tags :
    schema.compileFilter false prizedText "Author" = .ok prized ∧ prized.groupBy = [] ∧
      Evaluator.of stock schema (.ofFilter "Author" prized) = .ok prizedEvaluator ∧
      stock.valuesBy schema author "prizes" writer = [.int 5] ∧
      groupOperand writer (prizedEvaluator.expand writer) summed = .one (.int 10) :=
  ⟨compiled_prized, rfl, evaluator_prized, by rfl, by rfl⟩

end Evaluator

end EntityQuery
