import EntityQuery.Proofs.Dataset.Typing
import EntityQuery.Proofs.Dataset.Union
import EntityQuery.Proofs.Filter.Lists
import EntityQuery.Proofs.Filter.Negation

/-!
# Membership is a disjunction of equalities

**To ask whether something is in a list is to ask whether it is equal to one of the items**, with
the same answer where it is null; to ask whether it is not in the list is to ask whether it is equal
to none of them (`membership_is_disjunction`). This is so wherever what is asked can be compared
with the items (`Operand.Meets`), and that is a matter of types: in a group always
(`meets_groupOperand`), and at a binding unless the operand counts what is not a number
(`meets_rowOperand`), for there is nothing to count at a binding, so that the value that is counted
stands for itself (`counted_name_is_not_listed`).

The disjunction is `oneOf` the equalities and its negation `noneOf` them. Their truth is that of the
membership test for one value (`Comparison.truth_member_eq_oneOf`), and from there it is carried
over to bindings and groups (`rowTruth_member`, `groupTruth_member`).
-/

namespace EntityQuery

/-! ## Formulas of many leaves -/

namespace Formula

variable {α : Type}

/-- One of the leaves. -/
def oneOf (a : α) (rest : List α) : Formula α := (rest.map .leaf).foldl .or (.leaf a)

/-- None of the leaves. -/
def noneOf (a : α) (rest : List α) : Formula α :=
  (rest.map fun b => .not (.leaf b)).foldl .and (.not (.leaf a))

/-- The truth of a formula whose leaves have a truth. -/
def truth (f : α → Truth) : Formula α → Truth
  | and p q => (p.truth f).and (q.truth f)
  | or p q => (p.truth f).or (q.truth f)
  | not p => (p.truth f).not
  | leaf a => f a

theorem leaves_foldl {f : Formula α → Formula α → Formula α}
    (joins : ∀ p q, (f p q).leaves = p.leaves ++ q.leaves) (p : Formula α) (ps : List (Formula α)) :
    (ps.foldl f p).leaves = p.leaves ++ ps.flatMap leaves := by
  induction ps generalizing p with
  | nil => exact (List.append_nil _).symm
  | cons q ps ih => rw [List.foldl_cons, ih, joins, List.append_assoc, List.flatMap_cons]

theorem leaves_oneOf (a : α) (rest : List α) : (oneOf a rest).leaves = a :: rest := by
  rw [oneOf, leaves_foldl fun _ _ => rfl, List.flatMap_map]
  simp [leaves]

theorem leaves_noneOf (a : α) (rest : List α) : (noneOf a rest).leaves = a :: rest := by
  rw [noneOf, leaves_foldl fun _ _ => rfl, List.flatMap_map]
  simp [leaves]

theorem exists_mem_leaves (p : Formula α) : ∃ a, a ∈ p.leaves := by
  induction p with
  | and p q ih _ | or p q ih _ =>
    obtain ⟨a, ha⟩ := ih
    exact ⟨a, List.mem_append_left _ ha⟩
  | not p ih => exact ih
  | leaf a => exact ⟨a, List.mem_singleton.mpr rfl⟩

theorem truth_oneOf (f : α → Truth) (a : α) (rest : List α) :
    (oneOf a rest).truth f = (rest.map f).foldl .or (f a) := by
  have from_ (t : Formula α) :
      ((rest.map leaf).foldl or t).truth f = (rest.map f).foldl .or (t.truth f) := by
    induction rest generalizing t with
    | nil => rfl
    | cons b rest ih => exact ih (.or t (.leaf b))
  exact from_ (.leaf a)

/-- None of the leaves holds exactly if one of them fails, and the other way round. -/
theorem truth_noneOf (f : α → Truth) (a : α) (rest : List α) :
    (noneOf a rest).truth f = ((oneOf a rest).truth f).not := by
  have from_ (t u : Formula α) (h : t.truth f = (u.truth f).not) :
      ((rest.map fun b => not (.leaf b)).foldl and t).truth f =
        (((rest.map leaf).foldl or u).truth f).not := by
    induction rest generalizing t u with
    | nil => exact h
    | cons b rest ih =>
      refine ih (.and t (.not (.leaf b))) (.or u (.leaf b)) ?_
      rw [truth, truth, truth, h, Truth.not_or]
  exact from_ (.not (.leaf a)) (.leaf a) rfl

end Formula

namespace Evaluator

variable {root : Record} {b : Binding} {group : List Binding} {p : Predicate}

theorem rowTruth_eq : rowTruth root b p =
    p.truth fun c => c.truth (rowOperand root b c.left) (rowOperand root b c.right) := by
  induction p with
  | and p q ihp ihq => rw [rowTruth, Formula.truth, ihp, ihq]
  | or p q ihp ihq => rw [rowTruth, Formula.truth, ihp, ihq]
  | not p ih => rw [rowTruth, Formula.truth, ih]
  | leaf c => rfl

/-- In a predicate of nothing but functions no binding is looked at by itself. -/
theorem groupTruth_eq (total : ∀ c ∈ p.leaves, c.isAggregate = true) :
    groupTruth root group p = p.truth fun c =>
      c.truth (groupOperand root group c.left) (groupOperand root group c.right) := by
  have aggregate : p.isAggregate = true := by
    obtain ⟨c, hc⟩ := p.exists_mem_leaves
    exact Predicate.isAggregate_of_mem hc (total c hc)
  induction p with
  | leaf c => rw [groupTruth, if_pos aggregate, Formula.truth]
  | not p ih => rw [groupTruth, if_pos aggregate, Formula.truth, ih total aggregate]
  | and p q ihp ihq | or p q ihp ihq =>
    obtain ⟨left, right⟩ := List.forall_mem_append.mp total
    obtain ⟨c, hc⟩ := p.exists_mem_leaves
    obtain ⟨d, hd⟩ := q.exists_mem_leaves
    rw [groupTruth, if_pos aggregate, Formula.truth,
      ihp left (Predicate.isAggregate_of_mem hc (left c hc)),
      ihq right (Predicate.isAggregate_of_mem hd (right d hd))]

end Evaluator

/-! ## Items of a list -/

/-- Whether two values are equal, as far as this is known. -/
def Value.same (v w : Value) : Truth := (v.compare w).elim .unknown fun o => .ofBool (o = .eq)

theorem Truth.foldl_or_unknown {ts : List Truth} (h : ∀ t ∈ ts, t = unknown) :
    ts.foldl or unknown = unknown := by
  induction ts with
  | nil => rfl
  | cons t ts ih =>
    obtain ⟨rfl, rest⟩ := List.forall_mem_cons.mp h
    exact ih rest

theorem Truth.foldl_or_ofBool (b : Bool) (bs : List Bool) :
    (bs.map ofBool).foldl or (ofBool b) = ofBool (b || bs.any id) := by
  induction bs generalizing b with
  | nil => rw [List.any_nil, Bool.or_false]; rfl
  | cons c bs ih =>
    have both : (ofBool b).or (ofBool c) = ofBool (b || c) := by cases b <;> cases c <;> rfl
    rw [List.map_cons, List.foldl_cons, both, ih, List.any_cons, Bool.or_assoc, id]

theorem Truth.any_of_forall {ts : List Truth} {t : Truth} (some_ : ts ≠ [])
    (h : ∀ u ∈ ts, u = t) : any ts = t := by
  obtain ⟨u, hu⟩ := List.exists_mem_of_ne_nil ts some_
  have only (u' : Truth) : u' ∈ ts ↔ u' = t := ⟨h u', fun same => same ▸ h u hu ▸ hu⟩
  unfold any
  simp only [only]
  cases t <;> rfl

theorem Value.same_eq_ofBool {v w : Value} (comparable : (v.compare w).isSome = true) :
    v.same w = .ofBool (v.equals w) := by
  obtain ⟨o, ho⟩ := Option.isSome_iff_exists.mp comparable
  rw [same, equals, ho]
  cases o <;> rfl

/-- A value that can be compared with the items is among them if it is equal to one of them. -/
theorem Value.among_cons {v w : Value} {ws : List Value}
    (comparable : v.isNull = false → ∀ u ∈ w :: ws, (v.compare u).isSome = true) :
    v.among (w :: ws) = (ws.map v.same).foldl .or (v.same w) := by
  cases null : v.isNull with
  | true =>
    have unknown (u : Value) : v.same u = .unknown := by
      rw [same, eq_null_of_isNull null, compare_null_left]
      rfl
    rw [Comparison.among_eq_unknown_iff.mpr ⟨null, List.cons_ne_nil w ws⟩, unknown,
      Truth.foldl_or_unknown]
    simp [unknown]
  | false =>
    obtain ⟨first, rest⟩ := List.forall_mem_cons.mp (comparable null)
    have items : ws.map v.same = (ws.map v.equals).map .ofBool := by
      rw [List.map_map]
      exact List.map_congr_left fun u hu => same_eq_ofBool (rest u hu)
    rw [items, same_eq_ofBool first, Truth.foldl_or_ofBool, List.any_map]
    simp [among, null]

namespace Comparison

/-- That something is among the values. -/
def member (o : Operand) (vs : List Value) : Comparison := ⟨o, .isIn, false, false, .list vs⟩

/-- That something is equal to the value. -/
def equal (o : Operand) (v : Value) : Comparison := ⟨o, .eq, false, false, .literal v⟩

theorem truth_member (o : Operand) (vs : List Value) (v : Value) :
    (member o vs).truth (.one v) (.many vs) = v.among vs := rfl

theorem truth_equal (o : Operand) (w v : Value) :
    (equal o w).truth (.one v) (.one w) = v.same w := by
  show (equal o w).compareOne v w = v.same w
  simp only [compareOne, equal, Value.same]
  cases v.compare w <;> rfl

end Comparison

/-- What the operand stands for can be compared with the items, unless it is null. -/
def Operand.Meets (stands : Operand → OperandValue) (o : Operand) (vs : List Value) : Prop :=
  ∃ v, stands o = .one v ∧ (v.isNull = false → ∀ u ∈ vs, (v.compare u).isSome = true)

section

open Comparison

variable {stands : Operand → OperandValue} {o : Operand} {w : Value} {ws : List Value}
  (list : ∀ vs, stands (.list vs) = .many vs) (literal : ∀ u, stands (.literal u) = .one u)
  (meets : o.Meets stands (w :: ws))

include list literal meets

/-- Where an operand can be compared with the items, membership is a disjunction of equalities. -/
theorem Comparison.truth_member_eq_oneOf :
    (Formula.leaf (member o (w :: ws))).truth (fun c => c.truth (stands c.left) (stands c.right)) =
      (Formula.oneOf (equal o w) (ws.map (equal o))).truth
        fun c => c.truth (stands c.left) (stands c.right) := by
  obtain ⟨v, left, comparable⟩ := meets
  have equals (u : Value) : (equal o u).truth (stands o) (stands (.literal u)) = v.same u := by
    rw [left, literal, truth_equal]
  have member : (member o (w :: ws)).truth (stands o) (stands (.list (w :: ws))) =
      v.among (w :: ws) := by
    rw [left, list, truth_member]
  rw [Formula.truth_oneOf, List.map_map]
  refine member.trans ((Value.among_cons comparable).trans ?_)
  rw [← equals w]
  exact congrArg (List.foldl Truth.or _) (List.map_congr_left fun u _ => (equals u).symm)

theorem Comparison.truth_member_eq_noneOf :
    (Formula.leaf (member o (w :: ws)).negated).truth
        (fun c => c.truth (stands c.left) (stands c.right)) =
      (Formula.noneOf (equal o w) (ws.map (equal o))).truth
        fun c => c.truth (stands c.left) (stands c.right) := by
  rw [Formula.truth_noneOf, ← truth_member_eq_oneOf list literal meets]
  exact truth_negated _ _ _

end

namespace Evaluator

open Comparison

variable {root : Record} {b : Binding} {group : List Binding} {o : Operand} {v w : Value}
  {ws : List Value}

/-- Predicates of nothing but functions, or of none, have the same truth in a group if they have it
in the group as a whole, or at each of its bindings. -/
theorem groupTruth_congr {p p' : Predicate} {total : Bool}
    (alike : ∀ c ∈ p.leaves, c.isAggregate = total)
    (alike' : ∀ c ∈ p'.leaves, c.isAggregate = total)
    (rows : total = false → ∀ b ∈ group, rowTruth root b p = rowTruth root b p')
    (whole : total = true →
      (p.truth fun c =>
        c.truth (groupOperand root group c.left) (groupOperand root group c.right)) =
      p'.truth fun c =>
        c.truth (groupOperand root group c.left) (groupOperand root group c.right)) :
    groupTruth root group p = groupTruth root group p' := by
  cases total with
  | true => rw [groupTruth_eq alike, groupTruth_eq alike', whole rfl]
  | false =>
    have single {p : Predicate} (alike : ∀ c ∈ p.leaves, c.isAggregate = false) :
        p.isAggregate = false := by
      rw [Predicate.isAggregate, Formula.any_eq_any_leaves, List.any_eq_false]
      simpa using alike
    rw [groupTruth_of_rows (single alike), groupTruth_of_rows (single alike')]
    exact congrArg Truth.any (List.map_congr_left (rows rfl))

/-- At a binding at which the operand can be compared with the items. -/
theorem rowTruth_member (meets : o.Meets (rowOperand root b) (w :: ws)) :
    rowTruth root b (.leaf (member o (w :: ws))) =
        rowTruth root b (.oneOf (equal o w) (ws.map (equal o))) ∧
      rowTruth root b (.leaf (member o (w :: ws)).negated) =
        rowTruth root b (.noneOf (equal o w) (ws.map (equal o))) := by
  simp only [rowTruth_eq]
  exact ⟨truth_member_eq_oneOf (fun _ => rfl) (fun _ => rfl) meets,
    truth_member_eq_noneOf (fun _ => rfl) (fun _ => rfl) meets⟩

/-- In a group in which the operand can be compared with the items, and at each binding of it where
the operand is no function. -/
theorem groupTruth_member (meets : o.Meets (groupOperand root group) (w :: ws))
    (rows : o.isAggregate = false → ∀ b ∈ group, o.Meets (rowOperand root b) (w :: ws)) :
    groupTruth root group (.leaf (member o (w :: ws))) =
        groupTruth root group (.oneOf (equal o w) (ws.map (equal o))) ∧
      groupTruth root group (.leaf (member o (w :: ws)).negated) =
        groupTruth root group (.noneOf (equal o w) (ws.map (equal o))) := by
  have leaf {c : Comparison} (left : c.isAggregate = o.isAggregate) :
      ∀ d ∈ Formula.leaves (.leaf c), d.isAggregate = o.isAggregate := by
    intro d hd
    rwa [List.mem_singleton.mp hd]
  have equals : ∀ c ∈ equal o w :: ws.map (equal o), c.isAggregate = o.isAggregate :=
    List.forall_mem_cons.mpr
      ⟨Bool.or_false _, List.forall_mem_map.mpr fun _ _ => Bool.or_false _⟩
  constructor
  · refine groupTruth_congr (leaf (Bool.or_false _)) (by rwa [Formula.leaves_oneOf])
      (fun single b hb => (rowTruth_member (rows single b hb)).1) fun _ => ?_
    exact truth_member_eq_oneOf (fun _ => rfl) (fun _ => rfl) meets
  · refine groupTruth_congr (leaf (Bool.or_false _)) (by rwa [Formula.leaves_noneOf])
      (fun single b hb => (rowTruth_member (rows single b hb)).2) fun _ => ?_
    exact truth_member_eq_noneOf (fun _ => rfl) (fun _ => rfl) meets

/-- Nothing is in a list without items. -/
theorem rowTruth_member_nil (meets : o.Meets (rowOperand root b) []) :
    rowTruth root b (.leaf (member o [])) = .fails ∧
      rowTruth root b (.leaf (member o []).negated) = .holds := by
  obtain ⟨v, left, -⟩ := meets
  constructor
  · show (member o []).truth (rowOperand root b o) (.many []) = .fails
    rw [left]
    rfl
  · show (member o []).negated.truth (rowOperand root b o) (.many []) = .holds
    rw [left]
    rfl

theorem groupTruth_member_nil (some_ : group ≠ []) (meets : o.Meets (groupOperand root group) [])
    (rows : o.isAggregate = false → ∀ b ∈ group, o.Meets (rowOperand root b) []) :
    groupTruth root group (.leaf (member o [])) = .fails ∧
      groupTruth root group (.leaf (member o []).negated) = .holds := by
  have aggregate : Predicate.isAggregate (.leaf (member o [])) = o.isAggregate := Bool.or_false _
  have aggregate' : Predicate.isAggregate (.leaf (member o []).negated) = o.isAggregate :=
    Bool.or_false _
  cases total : o.isAggregate with
  | true =>
    obtain ⟨v, left, -⟩ := meets
    rw [groupTruth, groupTruth, if_pos (aggregate.trans total), if_pos (aggregate'.trans total)]
    show (member o []).truth (groupOperand root group o) (.many []) = .fails ∧
      (member o []).negated.truth (groupOperand root group o) (.many []) = .holds
    rw [left]
    exact ⟨rfl, rfl⟩
  | false =>
    have rows := fun b hb => rowTruth_member_nil (rows total b hb)
    rw [groupTruth_of_rows (aggregate.trans total), groupTruth_of_rows (aggregate'.trans total)]
    constructor
    · exact Truth.any_of_forall (by simpa using some_)
        (List.forall_mem_map.mpr fun b hb => (rows b hb).1)
    · exact Truth.any_of_forall (by simpa using some_)
        (List.forall_mem_map.mpr fun b hb => (rows b hb).2)

end Evaluator

/-! ## What can be compared -/

/-- The operand counts what is not a number. -/
def Operand.CountsOther (s : Schema) (e : Entity) (joins : Joins) (o : Operand) : Prop :=
  ∃ f a type, o = .aggregate f a ∧ (f = .count ∨ f = .countDistinct) ∧
    a.HasType s e joins type ∧ type.isNumeric = false

section

variable {s : Schema} {e : Entity} {joins : Joins} {o : Operand} {type : ScalarType}

/-- What an operand reads can be compared with values of its type, unless it counts what is not a
number. -/
theorem Operand.HasType.exists_comparable (typed : o.HasType s e joins type)
    (plain : ¬ o.CountsOther s e joins) : ∃ a of, o.reads? = some a ∧ a.HasType s e joins of ∧
      Expression.comparable type of = true := by
  cases typed with
  | attr read => exact ⟨_, type, rfl, read, Expression.comparable_iff.mpr (.inl rfl)⟩
  | @aggregate f a field of _ read result =>
    refine ⟨a, of, rfl, read, Expression.comparable_iff.mpr ?_⟩
    have counted (counts : f = .count ∨ f = .countDistinct) : of.isNumeric = true := by
      by_contra other
      exact plain ⟨f, a, of, rfl, counts, read, by simpa using other⟩
    unfold Aggregate.resultType at result
    cases f with
    | count =>
      cases result
      exact .inr ⟨rfl, counted (.inl rfl)⟩
    | countDistinct =>
      cases result
      exact .inr ⟨rfl, counted (.inr rfl)⟩
    | sum =>
      dsimp only at result
      split at result <;> cases result
      exact .inl rfl
    | avg =>
      dsimp only at result
      split at result
      · next numeric =>
        cases result
        exact .inr ⟨rfl, numeric⟩
      · cases result
    | max | min | greatest | least =>
      cases result
      exact .inl rfl

end

namespace Evaluator

variable {d : Dataset} {s : Schema} {q : Selection} {ev : Evaluator} {root : Record} {e : Entity}
  {b : Binding} {group : List Binding} {o : Operand} {type : ScalarType} {vs : List Value}
  (hev : Evaluator.of d s q = .ok ev) (sound : q.joins.Sound s e) (he : s.entity e.name = .ok e)
  (stored : root ∈ d.rows e.name) (typed : d.Typed s) (identified : ∀ e ∈ s.entities, e.Identified)
  (items : ∀ v ∈ vs, type.Holds v)

include hev sound he stored typed identified items

omit hev sound he stored typed identified items in
theorem rowOperand_of_reads? {a : AttrRef} (reads : o.reads? = some a) :
    rowOperand root b o = .one (value root b a) := by
  cases o <;> cases reads <;> rfl

theorem meets_rowOperand (hb : b ∈ ev.expand root) {a : AttrRef} {of : ScalarType}
    (reads : o.reads? = some a) (read : a.HasType s e q.joins of)
    (comparable : Expression.comparable type of = true) : o.Meets (rowOperand root b) vs := by
  have takes := (stores_value hev sound he stored typed identified hb read).takes
  exact ⟨_, rowOperand_of_reads? reads, fun present u hu =>
    takes.isSome_compare (items u hu).takes comparable present (items u hu).isNull⟩

theorem meets_groupOperand (within : ∀ b ∈ group, b ∈ ev.expand root)
    (typedOperand : o.HasType s e q.joins type) : o.Meets (groupOperand root group) vs := by
  obtain ⟨v, left, takes⟩ :=
    takes_groupOperand hev sound he stored typed identified within typedOperand
  have same := Expression.comparable_iff.mpr (.inl (Eq.refl type))
  exact ⟨v, left, fun present u hu =>
    takes.isSome_compare (items u hu).takes same present (items u hu).isNull⟩

end Evaluator

/-! ## Compiling -/

namespace Expression

variable {s : Schema} {name attr : String} {function : Option Aggregate} {joins joins' : Joins}
  {o : Operand} {type : ScalarType}
  (left : operand s name attr function joins = (.ok (o, type), joins'))
  (nullSafe propertyCompare : Bool)

include left

theorem compile_member {raws : List String} {vs : List Value}
    (coerced : raws.mapM (fun raw => type.coerce attr raw) = .ok vs) :
    compile s name nullSafe ⟨attr, function, .isIn, false, propertyCompare, .list raws⟩ joins =
      (.ok (.member o vs), joins') := by
  have right := Resolving.mapM_lift_eq_ok.mpr ⟨coerced, @rfl _ joins'⟩
  exact compile_in left (Resolving.bind_eq_ok.mpr ⟨_, _, right, rfl⟩)

theorem compile_equal {raw : String} {v : Value} (coerced : type.coerce attr raw = .ok v) :
    compile s name nullSafe ⟨attr, function, .eq, false, propertyCompare, .literal raw⟩ joins =
      (.ok (.equal o v), joins') := by
  have right := Resolving.lift_eq_ok.mpr ⟨coerced, @rfl _ joins'⟩
  refine Resolving.bind_eq_ok.mpr ⟨_, _, left, ?_⟩
  refine Resolving.guard_eq_ok.mpr ⟨by simp [Operator.isPattern], ?_⟩
  refine Resolving.bind_eq_ok.mpr ⟨_, _, Resolving.bind_eq_ok.mpr ⟨_, _, right, rfl⟩, ?_⟩
  exact Resolving.pure_eq_ok.mpr ⟨by simp [Comparison.equal, Operand.attr?], rfl⟩

end Expression

/-- **Membership is a disjunction of equalities.** To ask whether something is among values that are
read of texts is to ask whether it is equal to the first, or the second, and so on; and to ask
whether it is not is to ask whether it is equal to none of them. In a group of bindings the answers
are the same, and so they are at a binding, unless something is counted that is no number. Among no
values there is nothing, not even what is null. -/
theorem membership_is_disjunction {entities : List EntityDeclaration} {s : Schema} {e : Entity}
    {name attr : String} {function : Option Aggregate} {joins joins' : Joins} {o : Operand}
    {type : ScalarType} {raws : List String} (declared : Schema.declare entities = .ok s)
    (hroot : s.entity name = .ok e) (sound : joins.Sound s e)
    (left : Expression.operand s name attr function joins = (.ok (o, type), joins'))
    (coerce : ∀ raw ∈ raws, Succeeds (type.coerce attr raw)) (nullSafe propertyCompare : Bool) :
    ∃ vs,
      Expression.compile s name nullSafe
          ⟨attr, function, .isIn, false, propertyCompare, .list raws⟩ joins =
        (.ok (.member o vs), joins') ∧
      Expression.compile s name nullSafe
          ⟨attr, function, .isIn, true, propertyCompare, .list raws⟩ joins =
        (.ok (Comparison.member o vs).negated, joins') ∧
      List.Forall₂ (fun raw v => Expression.compile s name nullSafe
          ⟨attr, function, .eq, false, propertyCompare, .literal raw⟩ joins =
        (.ok (.equal o v), joins')) raws vs ∧
      ∀ (d : Dataset) (q : Selection) (ev : Evaluator) (root : Record), d.Typed s →
        q.joins.Sound s e → joins' <+: q.joins → Evaluator.of d s q = .ok ev →
        root ∈ d.rows name →
        (∀ w ws, vs = w :: ws →
          (∀ groupBy, ∀ group ∈ Evaluator.groups root groupBy (ev.expand root),
            Evaluator.groupTruth root group (.leaf (.member o vs)) =
                Evaluator.groupTruth root group (.oneOf (.equal o w) (ws.map (.equal o))) ∧
              Evaluator.groupTruth root group (.leaf (Comparison.member o vs).negated) =
                Evaluator.groupTruth root group (.noneOf (.equal o w) (ws.map (.equal o)))) ∧
          (¬ o.CountsOther s e joins' → ∀ b ∈ ev.expand root,
            Evaluator.rowTruth root b (.leaf (.member o vs)) =
                Evaluator.rowTruth root b (.oneOf (.equal o w) (ws.map (.equal o))) ∧
              Evaluator.rowTruth root b (.leaf (Comparison.member o vs).negated) =
                Evaluator.rowTruth root b (.noneOf (.equal o w) (ws.map (.equal o))))) ∧
        (vs = [] →
          (∀ groupBy, ∀ group ∈ Evaluator.groups root groupBy (ev.expand root),
            Evaluator.groupTruth root group (.leaf (.member o vs)) = .fails ∧
              Evaluator.groupTruth root group (.leaf (Comparison.member o vs).negated) = .holds) ∧
          ∀ b ∈ ev.expand root,
            Evaluator.rowTruth root b (.leaf (.member o vs)) = .fails ∧
              Evaluator.rowTruth root b (.leaf (Comparison.member o vs).negated) = .holds) := by
  obtain ⟨vs, coerced⟩ := succeeds_mapM_iff.mpr coerce
  have each := mapM_eq_ok.mp coerced
  have items : ∀ v ∈ vs, type.Holds v := by
    intro v hv
    obtain ⟨raw, _, read⟩ := exists_of_forall₂ each hv
    exact ScalarType.holds_coerce read
  have typedHere := Expression.operand_hasType hroot sound left
  have member := Expression.compile_member left nullSafe propertyCompare coerced
  refine ⟨vs, member, ?_, each.imp fun raw v read =>
    Expression.compile_equal left nullSafe propertyCompare read, ?_⟩
  · have negated := @Expression.compile_negated s name nullSafe
      ⟨attr, function, .isIn, false, propertyCompare, .list raws⟩
    refine (congrFun negated joins).trans ?_
    exact Resolving.bind_eq_ok.mpr ⟨_, _, member, rfl⟩
  intro d q ev root typed sound grown hev stored
  have identified := Schema.identified_of_declare declared
  have named := Schema.name_of_entity hroot
  rw [← named] at hroot stored
  have rows (plain : ¬ o.CountsOther s e joins') {b : Binding} (hb : b ∈ ev.expand root) :
      o.Meets (Evaluator.rowOperand root b) vs := by
    obtain ⟨a, of, reads, read, comparable⟩ := typedHere.exists_comparable plain
    exact Evaluator.meets_rowOperand hev sound hroot stored typed identified items hb reads
      (read.mono grown) comparable
  have whole {groupBy : List AttrRef} {group : List Binding}
      (hgroup : group ∈ Evaluator.groups root groupBy (ev.expand root)) :
      o.Meets (Evaluator.groupOperand root group) vs :=
    Evaluator.meets_groupOperand hev sound hroot stored typed identified items
      (Evaluator.mem_of_mem_groups hgroup) (typedHere.mono grown)
  constructor
  · rintro w ws rfl
    refine ⟨fun groupBy group hgroup => ?_,
      fun plain b hb => Evaluator.rowTruth_member (rows plain hb)⟩
    refine Evaluator.groupTruth_member (whole hgroup) fun single b hb => ?_
    refine rows ?_ (Evaluator.mem_of_mem_groups hgroup b hb)
    rintro ⟨f, a, _, rfl, _⟩
    cases single
  · rintro rfl
    obtain ⟨a, of, reads, _⟩ := typedHere.reads
    have row (b : Binding) : o.Meets (Evaluator.rowOperand root b) [] :=
      ⟨_, Evaluator.rowOperand_of_reads? reads, fun _ _ h => absurd h List.not_mem_nil⟩
    exact ⟨fun groupBy group hgroup => Evaluator.groupTruth_member_nil
      (Evaluator.ne_nil_of_mem_groups hgroup) (whole hgroup) fun _ b _ => row b,
      fun b _ => Evaluator.rowTruth_member_nil (row b)⟩

namespace Listed

open Spellings

def entities : List EntityDeclaration :=
  [⟨"Person", "person", [.id "id" .integer, .scalar "name" .text]⟩]

/-- A person with the name `x`. -/
def person : Record := ⟨"Person", .int 1, [("id", .int 1), ("name", .text "x")], [], []⟩

def people : Dataset := Dataset.empty.insert person

def evaluator : Evaluator := ⟨people, [], []⟩

def id : Operand := .attr ⟨.root, .attribute "id" "id"⟩

/-- The number of names. -/
def names : Operand := .aggregate .count ⟨.root, .attribute "name" "name"⟩

theorem typed_people : people.Typed schema := by
  intro e he r hr a ha
  rw [List.mem_singleton.mp he] at hr ha
  rw [List.mem_singleton.mp hr]
  rcases List.mem_pair.mp ha with rfl | rfl
  · exact .inr ⟨rfl, nofun⟩
  · exact .inr ⟨rfl, nofun⟩

end Listed

open Spellings Listed Evaluator in
theorem membership_is_disjunction_listed :
    Expression.compile schema "Person" false
        ⟨"id", none, .isIn, false, false, .list ["1", "2"]⟩ [] =
          (.ok (.member id [.int 1, .int 2]), []) ∧
      rowTruth person [] (.leaf (.member id [.int 1, .int 2])) =
        rowTruth person [] (.oneOf (.equal id (.int 1)) [.equal id (.int 2)]) ∧
      rowTruth person [] (.leaf (Comparison.member id [.int 1, .int 2]).negated) =
        rowTruth person [] (.noneOf (.equal id (.int 1)) [.equal id (.int 2)]) := by
  have declared : Schema.declare entities = .ok schema := by rfl
  have left : Expression.operand schema "Person" "id" none [] = (.ok (id, .integer), []) := by cbv
  have coerce : ∀ raw ∈ ["1", "2"], Succeeds (ScalarType.integer.coerce "id" raw) := by
    rw [List.forall_mem_cons, List.forall_mem_singleton]
    exact ⟨⟨.int 1, by rfl⟩, ⟨.int 2, by rfl⟩⟩
  have known : Expression.compile schema "Person" false
      ⟨"id", none, .isIn, false, false, .list ["1", "2"]⟩ [] =
        (.ok (.member id [.int 1, .int 2]), []) := by cbv
  have hev : Evaluator.of people schema (.ofFilter "Person" .empty) = .ok evaluator := by rfl
  obtain ⟨vs, compiled, _, _, same⟩ :=
    membership_is_disjunction declared (by rfl) Joins.sound_nil left coerce false false
  cases known.symm.trans compiled
  obtain ⟨some_, _⟩ := same people (.ofFilter "Person" .empty) evaluator person typed_people
    Joins.sound_nil (List.prefix_refl _) hev (List.mem_singleton.mpr rfl)
  obtain ⟨_, rows⟩ := some_ _ _ rfl
  refine ⟨known, rows ?_ [] (List.mem_singleton.mpr rfl)⟩
  rintro ⟨f, a, type, ⟨⟩, _⟩

open Spellings Listed Evaluator in
/-- At a binding there is no number of names, only a name. It is not among any numbers then, and it
is not known whether it is equal to one. -/
theorem counted_name_is_not_listed :
    Expression.compile schema "Person" false
        ⟨"name", some .count, .isIn, true, false, .list ["1"]⟩ [] =
          (.ok (Comparison.member names [.int 1]).negated, []) ∧
      Expression.compile schema "Person" false
        ⟨"name", some .count, .eq, false, false, .literal "1"⟩ [] =
          (.ok (.equal names (.int 1)), []) ∧
      people.Typed schema ∧ [] ∈ evaluator.expand person ∧
      rowTruth person [] (.leaf (Comparison.member names [.int 1]).negated) = .holds ∧
      rowTruth person [] (.noneOf (.equal names (.int 1)) []) = .unknown := by
  refine ⟨by cbv, by cbv, typed_people, List.mem_singleton.mpr rfl, ?_, ?_⟩
  · decide +kernel
  · decide +kernel

end EntityQuery
