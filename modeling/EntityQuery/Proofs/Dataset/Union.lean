import EntityQuery.Proofs.Dataset.Counting
import EntityQuery.Proofs.Dataset.Sharing
import EntityQuery.Proofs.Preparation

/-!
# Filters that are joined by `or`

**The disjunction of two filters selects what either of them selects** (`or_selects_union`). It is
evaluated over the joins of both, and each of the two predicates has the truth there that it has by
itself: at bindings that agree its comparisons compare the same values (`rowTruth_of_agree`), and
over all bindings of a record it is decided by what is read, not by how often
(`groupTruth_of_agree`).

The latter is so because the functions in it count distinct values (`Predicate.CountsDistinct`); a
sum would see the repetitions. Both filters have to be closed: a quotation that is left open takes
in the parenthesis and the other filter (`or_of_unclosed`).
-/

namespace EntityQuery

/-- The functions in the predicate count distinct values, as counting an association does, and none
of them is compared with anything that is read. -/
def Predicate.CountsDistinct (p : Predicate) : Prop :=
  ∀ c ∈ p.leaves, c.isAggregate = true →
    ∃ a, c.left = .aggregate .countDistinct a ∧ c.right.reads? = none

theorem Predicate.countsDistinct_and_iff {p q : Predicate} :
    CountsDistinct (.and p q) ↔ p.CountsDistinct ∧ q.CountsDistinct :=
  List.forall_mem_append

theorem Predicate.countsDistinct_or_iff {p q : Predicate} :
    CountsDistinct (.or p q) ↔ p.CountsDistinct ∧ q.CountsDistinct :=
  List.forall_mem_append

theorem Truth.any_congr {l l' : List Truth} (h : ∀ t, t ∈ l ↔ t ∈ l') : any l = any l' := by
  simp only [any, h]

theorem Truth.or_eq_holds_iff {t u : Truth} : t.or u = holds ↔ t = holds ∨ u = holds := by
  cases t <;> cases u <;> simp [Truth.or]

section

variable {few many : Joins}

/-! ## The same apart from numbers -/

theorem Operand.Alike.isAggregate {o o' : Operand} (h : o.Alike few many o') :
    o'.isAggregate = o.isAggregate := by
  cases h <;> rfl

theorem Operand.Alike.reads?_eq_none_iff {o o' : Operand} (h : o.Alike few many o') :
    o'.reads? = Option.none ↔ o.reads? = Option.none := by
  cases h <;> simp [Operand.reads?]

theorem Operand.Alike.eq_of_reads? {o o' : Operand} (h : o.Alike few many o')
    (none : o.reads? = Option.none) : o' = o := by
  cases h with
  | attr | aggregate => cases none
  | literal | list | none => rfl

theorem Comparison.Alike.isAggregate {c c' : Comparison} (h : c.Alike few many c') :
    c'.isAggregate = c.isAggregate := by
  rw [Comparison.isAggregate, Comparison.isAggregate, h.left.isAggregate, h.right.isAggregate]

theorem Comparison.Alike.truth {c c' : Comparison} (h : c.Alike few many c')
    (left right : OperandValue) : c'.truth left right = c.truth left right := by
  obtain ⟨_, _, operator, negate, nullSafe⟩ := h
  cases c
  cases c'
  cases operator
  cases negate
  cases nullSafe
  rfl

theorem Predicate.Alike.isAggregate {p p' : Predicate} (h : Predicate.Alike few many p p') :
    p'.isAggregate = p.isAggregate := by
  unfold Predicate.isAggregate
  induction h with
  | and _ _ ihl ihr => simp only [Formula.any, ihl, ihr]
  | or _ _ ihl ihr => simp only [Formula.any, ihl, ihr]
  | not _ ih => exact ih
  | leaf h => exact h.isAggregate

theorem Predicate.Alike.countsDistinct {p p' : Predicate} (h : Predicate.Alike few many p p')
    (counts : p.CountsDistinct) : Predicate.CountsDistinct p' := by
  induction h with
  | and _ _ ihl ihr =>
    obtain ⟨left, right⟩ := countsDistinct_and_iff.mp counts
    exact countsDistinct_and_iff.mpr ⟨ihl left, ihr right⟩
  | or _ _ ihl ihr =>
    obtain ⟨left, right⟩ := countsDistinct_or_iff.mp counts
    exact countsDistinct_or_iff.mpr ⟨ihl left, ihr right⟩
  | not _ ih => exact ih counts
  | @leaf c c' h =>
    intro c₁ hc
    cases List.mem_singleton.mp hc
    rw [h.isAggregate, h.right.reads?_eq_none_iff]
    intro aggregate
    obtain ⟨a, left, right⟩ := counts c (List.mem_singleton.mpr rfl) aggregate
    have alike := h.left
    rw [left] at alike
    generalize c'.left = o at alike
    cases alike with
    | aggregate _ _ => exact ⟨_, rfl, right⟩

namespace Evaluator

variable {root : Record} {b c : Binding}

/-! ## Truth at bindings that agree -/

theorem value_of_agree {a a' : AttrRef} (agree : Agree root few many b c)
    (h : a.Alike few many a') : value root b a = value root c a' := by
  rw [value_eq, value_eq, agree a.source a'.source h.source, h.column]

theorem rowOperand_of_agree {o o' : Operand} (agree : Agree root few many b c)
    (h : o.Alike few many o') : rowOperand root b o = rowOperand root c o' := by
  cases h with
  | attr h => exact congrArg OperandValue.one (value_of_agree agree h)
  | aggregate f h => exact congrArg OperandValue.one (value_of_agree agree h)
  | literal | list | none => rfl

/-- At bindings that agree a predicate has the same truth. -/
theorem rowTruth_of_agree {p p' : Predicate} (agree : Agree root few many b c)
    (h : Predicate.Alike few many p p') : rowTruth root b p = rowTruth root c p' := by
  induction h with
  | and _ _ ihl ihr => simp only [rowTruth, ihl, ihr]
  | or _ _ ihl ihr => simp only [rowTruth, ihl, ihr]
  | not _ ih => simp only [rowTruth, ih]
  | leaf h =>
    simp only [rowTruth, rowOperand_of_agree agree h.left, rowOperand_of_agree agree h.right,
      h.truth]

/-! ## Truth in groups that agree -/

theorem groupTruth_of_rows {group : List Binding} {p : Predicate} (h : p.isAggregate = false) :
    groupTruth root group p = .any (group.map fun b => rowTruth root b p) := by
  have rows : ¬ p.isAggregate = true := by simp [h]
  cases p <;> exact if_neg rows

theorem groupOperand_of_reads? {group : List Binding} {o : Operand}
    (none : o.reads? = Option.none) : groupOperand root group o = .ofLiteral o := by
  cases o with
  | attr | aggregate => cases none
  | literal | list | none => rfl

section

variable {group group' : List Binding}
  (forth : ∀ b ∈ group, ∃ c ∈ group', Agree root few many b c)
  (back : ∀ c ∈ group', ∃ b ∈ group, Agree root few many b c)

include forth back

/-- Counting distinct values does not depend on how often they are read. -/
theorem groupOperand_countDistinct {a a' : AttrRef} (h : a.Alike few many a') :
    groupOperand root group (.aggregate .countDistinct a) =
      groupOperand root group' (.aggregate .countDistinct a') := by
  have mem (group : List Binding) (a : AttrRef) (key : String) :
      key ∈ ((group.map fun b => value root b a).filter (!·.isNull)).map Value.key ↔
        ∃ b ∈ group, (value root b a).isNull = false ∧ (value root b a).key = key := by
    simp [List.mem_filter, and_assoc]
  have same : (((group.map fun b => value root b a).filter (!·.isNull)).map Value.key).toFinset =
      (((group'.map fun c => value root c a').filter (!·.isNull)).map Value.key).toFinset := by
    refine List.toFinset.ext fun key => ?_
    rw [mem, mem]
    constructor
    · rintro ⟨b, hb, found⟩
      obtain ⟨c, hc, agree⟩ := forth b hb
      exact ⟨c, hc, value_of_agree agree h ▸ found⟩
    · rintro ⟨c, hc, found⟩
      obtain ⟨b, hb, agree⟩ := back c hc
      exact ⟨b, hb, (value_of_agree agree h).symm ▸ found⟩
  show OperandValue.one (.int (Int64.ofNat _)) = .one (.int (Int64.ofNat _))
  rw [length_eraseDups, length_eraseDups, same]

theorem any_rowTruth_of_agree {p p' : Predicate} (h : Predicate.Alike few many p p') :
    Truth.any (group.map fun b => rowTruth root b p) =
      .any (group'.map fun c => rowTruth root c p') := by
  refine Truth.any_congr fun t => ?_
  rw [List.mem_map, List.mem_map]
  constructor
  · rintro ⟨b, hb, rfl⟩
    obtain ⟨c, hc, agree⟩ := forth b hb
    exact ⟨c, hc, (rowTruth_of_agree agree h).symm⟩
  · rintro ⟨c, hc, rfl⟩
    obtain ⟨b, hb, agree⟩ := back c hc
    exact ⟨b, hb, rowTruth_of_agree agree h⟩

/-- In groups that agree a predicate has the same truth, even if one repeats what the other has. -/
theorem groupTruth_of_agree {p p' : Predicate} (h : Predicate.Alike few many p p')
    (counts : p.CountsDistinct) : groupTruth root group p = groupTruth root group' p' := by
  -- Without a function in it the predicate is asked of each binding by itself.
  have apart {p p' : Predicate} (h : Predicate.Alike few many p p')
      (functions : p.isAggregate = true → p'.isAggregate = true →
        groupTruth root group p = groupTruth root group' p') :
      groupTruth root group p = groupTruth root group' p' := by
    cases aggregate : p.isAggregate with
    | true => exact functions aggregate (h.isAggregate.trans aggregate)
    | false =>
      rw [groupTruth_of_rows aggregate, groupTruth_of_rows (h.isAggregate.trans aggregate)]
      exact any_rowTruth_of_agree forth back h
  induction h with
  | and hp hq ihp ihq =>
    obtain ⟨left, right⟩ := Predicate.countsDistinct_and_iff.mp counts
    refine apart (.and hp hq) fun aggregate aggregate' => ?_
    rw [groupTruth, groupTruth, if_pos aggregate, if_pos aggregate', ihp left, ihq right]
  | or hp hq ihp ihq =>
    obtain ⟨left, right⟩ := Predicate.countsDistinct_or_iff.mp counts
    refine apart (.or hp hq) fun aggregate aggregate' => ?_
    rw [groupTruth, groupTruth, if_pos aggregate, if_pos aggregate', ihp left, ihq right]
  | not hp ihp =>
    refine apart (.not hp) fun aggregate aggregate' => ?_
    rw [groupTruth, groupTruth, if_pos aggregate, if_pos aggregate', ihp counts]
  | @leaf c c' h =>
    refine apart (.leaf h) fun aggregate aggregate' => ?_
    obtain ⟨a, left, right⟩ := counts c (List.mem_singleton.mpr rfl) aggregate
    have hleft := h.left
    rw [left] at hleft
    rw [groupTruth, groupTruth, if_pos aggregate, if_pos aggregate', h.truth,
      h.right.eq_of_reads? right, left]
    generalize c'.left = o at hleft
    cases hleft with
    | aggregate _ h =>
      rw [groupOperand_countDistinct forth back h, groupOperand_of_reads? right,
        groupOperand_of_reads? right]

end

/-! ## What is kept -/

theorem groupTruth_or_eq_holds_iff {group : List Binding} {p q : Predicate} :
    groupTruth root group (.or p q) = .holds ↔
      groupTruth root group p = .holds ∨ groupTruth root group q = .holds := by
  cases aggregate : Predicate.isAggregate (.or p q) with
  | true => rw [groupTruth, if_pos aggregate, Truth.or_eq_holds_iff]
  | false =>
    obtain ⟨left, right⟩ : p.isAggregate = false ∧ q.isAggregate = false := by
      simpa [Predicate.isAggregate, Formula.any] using aggregate
    rw [groupTruth_of_rows aggregate, groupTruth_of_rows left, groupTruth_of_rows right]
    simp only [Truth.any_eq_holds_iff, List.mem_map, rowTruth, Truth.or_eq_holds_iff]
    constructor
    · rintro ⟨b, hb, h | h⟩
      · exact .inl ⟨b, hb, h⟩
      · exact .inr ⟨b, hb, h⟩
    · rintro (⟨b, hb, h⟩ | ⟨b, hb, h⟩)
      · exact ⟨b, hb, .inl h⟩
      · exact ⟨b, hb, .inr h⟩

theorem groupingAttributes_of_countsDistinct {p : Predicate} (counts : p.CountsDistinct) :
    p.groupingAttributes = [] := by
  refine List.eq_nil_iff_forall_not_mem.mpr fun a ha => ?_
  obtain ⟨c, hc, aggregate, shared⟩ := Predicate.mem_groupingAttributes.mp ha
  obtain ⟨a', left, right⟩ := counts c hc aggregate
  rcases shared with shared | shared
  · rw [left] at shared
    cases shared
  · rw [Operand.reads?_of_attr? shared] at right
    cases right

/-- A record is kept if the predicate holds of all its bindings together. -/
theorem keeps_iff {name : String} {p : Predicate} {joins : Joins} (counts : p.CountsDistinct)
    (ev : Evaluator) (root : Record) :
    ev.keeps (.ofFilter name (.ofPredicate (some p) joins)) root = true ↔
      groupTruth root (ev.expand root) p = .holds := by
  cases aggregate : p.isAggregate with
  | false =>
    rw [groupTruth_of_rows aggregate, Truth.any_eq_holds_iff]
    simp [keeps, Selection.ofFilter, CompiledFilter.ofPredicate, aggregate, List.mem_map]
  | true =>
    have whole : groups root p.groupingAttributes (ev.expand root) = [ev.expand root] := by
      refine groups_of_root ?_ (expand_ne_nil ev root)
      rw [groupingAttributes_of_countsDistinct counts]
      exact List.forall_mem_nil _
    simp [keeps, Selection.ofFilter, CompiledFilter.ofPredicate, aggregate, whole]

end Evaluator

end

/-! ## What is selected -/

theorem JoinNode.Followable.of_step {s : Schema} {j k : JoinNode} (h : j.Followable s)
    (same : k.step = j.step) : k.Followable s := by
  obtain ⟨_, owner, attr, target⟩ := Step.mk.inj same
  intro name hname
  rw [owner, attr]
  exact h name (target ▸ hname)

namespace Dataset

variable {d : Dataset} {s : Schema} {name : String} {f g : CompiledFilter} {p q : Predicate}

/-- A filter whose joins can be followed selects the records that it keeps, in the order of their
identifiers. -/
theorem exists_select_eq {root : Entity} (hroot : s.entity name = .ok root)
    (compiled : f.Compiled s root) (follow : ∀ j ∈ f.joins, j.Followable s) :
    ∃ ev, Evaluator.of d s (.ofFilter name f) = .ok ev ∧
      d.select s (.ofFilter name f) = .ok (stableSort (fun a b => compareRecords a b [] = .lt)
        ((d.rows name).filter (ev.keeps (.ofFilter name f)))) := by
  have named := Schema.name_of_entity hroot
  subst named
  have asks : (Selection.ofFilter root.name f).Asks root.name f := ⟨rfl, rfl, rfl, rfl, rfl⟩
  obtain ⟨selected, h⟩ := (succeeds_datasetSelect_iff hroot compiled asks d).mpr follow
  obtain ⟨kept, hkept, hselected⟩ := bind_eq_ok.mp h
  obtain ⟨_, _, hkept⟩ := bind_eq_ok.mp hkept
  obtain ⟨ev, hev, hkept⟩ := bind_eq_ok.mp hkept
  cases hkept
  cases hselected
  exact ⟨ev, hev, h⟩

theorem exists_select {root : Entity} (hroot : s.entity name = .ok root)
    (compiled : f.Compiled s root) (follow : ∀ j ∈ f.joins, j.Followable s) :
    ∃ ev selected, Evaluator.of d s (.ofFilter name f) = .ok ev ∧
      d.select s (.ofFilter name f) = .ok selected ∧
      ∀ r, r ∈ selected ↔ r ∈ d.rows name ∧ ev.keeps (.ofFilter name f) r = true := by
  obtain ⟨ev, hev, select⟩ := exists_select_eq (d := d) hroot compiled follow
  exact ⟨ev, _, hev, select, fun r => (stableSort_perm ..).mem_iff.trans List.mem_filter⟩

/-- **The disjunction of two filters selects what either of them selects**, if each of them is
closed, their functions count distinct values and their joins can be followed. -/
theorem or_selects_union {nullSafe : Bool} {left right : String}
    (hf : s.compileFilter nullSafe left name = .ok f)
    (hg : s.compileFilter nullSafe right name = .ok g) (hp : f.predicate = some p)
    (hq : g.predicate = some q) (closedLeft : IsClosed left) (closedRight : IsClosed right)
    (countsLeft : p.CountsDistinct) (countsRight : q.CountsDistinct)
    (followLeft : ∀ j ∈ f.joins, j.Followable s) (followRight : ∀ j ∈ g.joins, j.Followable s) :
    ∃ h lefts rights both,
      s.compileFilter nullSafe ("(" ++ left ++ ") or (" ++ right ++ ")") name = .ok h ∧
      d.select s (.ofFilter name f) = .ok lefts ∧ d.select s (.ofFilter name g) = .ok rights ∧
      d.select s (.ofFilter name h) = .ok both ∧ ∀ r, r ∈ both ↔ r ∈ lefts ∨ r ∈ rights := by
  obtain ⟨root, joins, p', q', hroot, compiled, withinF, withinG, added, alikeP, alikeQ⟩ :=
    Schema.compileFilter_or hf hg hp hq closedLeft closedRight
  obtain ⟨_, hroot', compiledF⟩ := Schema.compileFilter_compiled hf
  cases hroot.symm.trans hroot'
  obtain ⟨_, hroot', compiledG⟩ := Schema.compileFilter_compiled hg
  cases hroot.symm.trans hroot'
  obtain ⟨_, hroot', compiledH⟩ := Schema.compileFilter_compiled compiled
  cases hroot.symm.trans hroot'
  -- The joins of the disjunction are those of the one filter or take the steps of the other.
  have follow : ∀ j ∈ joins, j.Followable s := by
    intro j hj
    rcases added j hj with there | ⟨k, hk, path⟩
    · exact followLeft j there
    · exact (followRight k hk).of_step
        (Evaluator.step_eq_of_path compiledG.joins withinG.soundMany hk hj path.symm)
  obtain ⟨evF, lefts, hevF, selectF, memF⟩ := exists_select (d := d) hroot compiledF followLeft
  obtain ⟨evG, rights, hevG, selectG, memG⟩ := exists_select (d := d) hroot compiledG followRight
  obtain ⟨ev, both, hev, select, mem⟩ := exists_select (d := d) hroot compiledH follow
  refine ⟨_, lefts, rights, both, compiled, selectF, selectG, select, fun r => ?_⟩
  have keepsF : evF.keeps (.ofFilter name f) r = true ↔
      Evaluator.groupTruth r (ev.expand r) p' = .holds := by
    rw [compiledF.eq, hp, Evaluator.keeps_iff countsLeft, Evaluator.groupTruth_of_agree
      (fun b => Evaluator.exists_agree_many withinF hevF hev rfl rfl)
      (fun c => Evaluator.exists_agree_few withinF hevF hev rfl rfl) alikeP countsLeft]
  have keepsG : evG.keeps (.ofFilter name g) r = true ↔
      Evaluator.groupTruth r (ev.expand r) q' = .holds := by
    rw [compiledG.eq, hq, Evaluator.keeps_iff countsRight, Evaluator.groupTruth_of_agree
      (fun b => Evaluator.exists_agree_many withinG hevG hev rfl rfl)
      (fun c => Evaluator.exists_agree_few withinG hevG hev rfl rfl) alikeQ countsRight]
  have counts : Predicate.CountsDistinct (.or p' q') := Predicate.countsDistinct_or_iff.mpr
    ⟨alikeP.countsDistinct countsLeft, alikeQ.countsDistinct countsRight⟩
  rw [mem, memF, memG, Evaluator.keeps_iff counts, Evaluator.groupTruth_or_eq_holds_iff, ← keepsF,
    ← keepsG, and_or_left]

end Dataset

namespace Evaluator.Bookshelf

/-- The author has two books. -/
def twice : Comparison := ⟨counted, .eq, false, false, .literal (.int 2)⟩

/-- The author has written the first book. -/
def first : Comparison :=
  ⟨.attr ⟨.join 0, .attribute "id" "id"⟩, .eq, false, false, .literal (.int 1)⟩

theorem compiled_twice : schema.compileFilter false "count\x7bbooks\x7d:2" "Author" =
    .ok (.ofPredicate (some (.leaf twice)) [books]) := by
  have scanned : scan "count\x7bbooks\x7d:2" = .ok [.word 0 counting] := by rfl
  have words : Formula.ofWords [.word 0 counting] = .ok (some (.leaf counting)) := by rfl
  exact Schema.compileFilter_word rfl scanned words (Schema.compileWord_eq_ok parsed_counting rfl)

theorem compiled_first : schema.compileFilter false "books.id:1" "Author" =
    .ok (.ofPredicate (some (.leaf first)) [books]) := by
  have scanned : scan "books.id:1" = .ok [.word 0 (.plain "books.id:1")] := by rfl
  have words : Formula.ofWords [.word 0 (.plain "books.id:1")] =
      .ok (some (.leaf (.plain "books.id:1"))) := by rfl
  have parsed : Expression.parse (.plain "books.id:1") =
      .ok ⟨"books.id", none, .eq, false, false, .literal "1"⟩ := by rfl
  have segments : Path.segments "books.id" = ["books", "id"] := by rfl
  have resolved : schema.resolve "Author" "books.id" [] =
      (.ok ⟨⟨.join 0, .attribute "id" "id"⟩, .integer, true⟩, [books]) := by
    unfold Schema.resolve
    rw [segments]
    rfl
  exact Schema.compileFilter_word rfl scanned words (Schema.compileWord_eq_ok parsed
    (Resolving.bind_eq_ok.mpr ⟨_, _, Resolving.bind_eq_ok.mpr ⟨_, _, resolved, rfl⟩, rfl⟩))

end Evaluator.Bookshelf

namespace Dataset

open Evaluator.Bookshelf in
/-- The authors of two books or of the first book: the two filters share the join of the books. -/
theorem or_selects_union_shelf : ∃ h lefts rights both,
    schema.compileFilter false ("(" ++ "count\x7bbooks\x7d:2" ++ ") or (" ++ "books.id:1" ++ ")")
      "Author" = .ok h ∧
    stock.select schema (.ofFilter "Author" (.ofPredicate (some (.leaf twice)) [books])) =
      .ok lefts ∧
    stock.select schema (.ofFilter "Author" (.ofPredicate (some (.leaf first)) [books])) =
      .ok rights ∧
    stock.select schema (.ofFilter "Author" h) = .ok both ∧
      ∀ r, r ∈ both ↔ r ∈ lefts ∨ r ∈ rights := by
  have follow : ∀ j ∈ [books], j.Followable schema := by
    refine List.forall_mem_singleton.mpr fun target _ => ?_
    exact ⟨.foreignKey "author" "author_id", by rfl⟩
  have countsTwice : Predicate.CountsDistinct (.leaf twice) := by
    intro c hc _
    cases List.mem_singleton.mp hc
    exact ⟨_, rfl, rfl⟩
  have countsFirst : Predicate.CountsDistinct (.leaf first) := by
    intro c hc aggregate
    cases List.mem_singleton.mp hc
    cases aggregate
  exact or_selects_union compiled_twice compiled_first rfl rfl (by decide +kernel)
    (by decide +kernel) countsTwice countsFirst follow follow

namespace Unclosed

def entity : Entity :=
  ⟨"A", "a", "id", [⟨"id", "id", false, .scalar .integer⟩, ⟨"n", "n", true, .scalar .text⟩]⟩

def schema : Schema := ⟨[entity]⟩

def named (id : Value) (n : String) : Record := ⟨"A", id, [("id", id), ("n", .text n)], [], []⟩

/-- A record that is named `x` and one that is named `y`. -/
def data : Dataset := (Dataset.empty.insert (named (.int 1) "x")).insert (named (.int 2) "y")

/-- The filter that asks for a name. -/
def byName (n : String) : CompiledFilter :=
  ⟨some (.leaf ⟨.attr ⟨.root, .attribute "n" "n"⟩, .eq, false, false, .literal (.text n)⟩), [],
    false, []⟩

theorem compiled_byName {filter : String} {n : String} {tokens : List Token} {w : Word}
    (scanned : scan filter = .ok tokens) (words : Formula.ofWords tokens = .ok (some (.leaf w)))
    (parsed : Expression.parse w = .ok ⟨"n", none, .eq, false, false, .literal n⟩)
    (text : ScalarType.text.coerce "n" n = .ok (.text n)) :
    schema.compileFilter false filter "A" = .ok (byName n) := by
  have left : Expression.operand schema "A" "n" none [] =
      (.ok (.attr ⟨.root, .attribute "n" "n"⟩, .text), []) := by rfl
  have right : Expression.rightOperand schema "A" .text
      ⟨"n", none, .eq, false, false, .literal n⟩ [] = (.ok (.literal (.text n), false), []) :=
    Resolving.bind_eq_ok.mpr ⟨_, [], Resolving.lift_eq_ok.mpr ⟨text, rfl⟩, rfl⟩
  refine Schema.compileFilter_word rfl scanned words (Schema.compileWord_eq_ok parsed ?_)
  refine Resolving.bind_eq_ok.mpr ⟨_, [], left, Resolving.guard_eq_ok.mpr ⟨nofun, ?_⟩⟩
  exact Resolving.bind_eq_ok.mpr ⟨_, [], right, rfl⟩

end Unclosed

open Unclosed in
/-- A quotation that is not closed takes the parenthesis and the other filter in. -/
theorem or_of_unclosed :
    schema.compileFilter false "n:\"x" "A" = .ok (byName "x") ∧
    schema.compileFilter false "n:y\"" "A" = .ok (byName "y") ∧
    schema.compileFilter false "(n:\"x) or (n:y\")" "A" = .ok (byName "x) or (n:y") ∧
    data.select schema (.ofFilter "A" (byName "x")) = .ok [named (.int 1) "x"] ∧
    data.select schema (.ofFilter "A" (byName "y")) = .ok [named (.int 2) "y"] ∧
    data.select schema (.ofFilter "A" (byName "x) or (n:y")) = .ok [] := by
  refine ⟨?_, ?_, ?_, by rfl, by rfl, by rfl⟩
  · have words : Formula.ofWords [.word 0 ⟨"n:".toList, some "x".toList⟩] =
        .ok (some (.leaf ⟨"n:".toList, some "x".toList⟩)) := by decide +kernel
    exact compiled_byName (by decide +kernel) words (by decide +kernel) rfl
  · have words : Formula.ofWords [.word 0 ⟨"n:y".toList, some []⟩] =
        .ok (some (.leaf ⟨"n:y".toList, some []⟩)) := by decide +kernel
    exact compiled_byName (by decide +kernel) words (by decide +kernel) rfl
  · have words : Formula.ofWords
        [.opening 0, .word 1 ⟨"n:".toList, some "x) or (n:y".toList⟩, .closing 15] =
        .ok (some (.leaf ⟨"n:".toList, some "x) or (n:y".toList⟩)) := by decide +kernel
    exact compiled_byName (by decide +kernel) words (by decide +kernel) rfl

end Dataset

end EntityQuery
