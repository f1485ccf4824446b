import EntityQuery.Dataset.Evaluation
import EntityQuery.Proofs.Filter.Typing
import EntityQuery.Proofs.Value.Floats
import EntityQuery.Proofs.Value.Keys
import EntityQuery.Proofs.Value.Order

/-!
# Comparisons that do not go wrong

A comparison goes wrong if one of its sides does not have the form that its operator asks for, or if
its sides are values that have no order (`Fits` says that neither is so). Both are excluded by
types: where each attribute has null or a finite value of the type it is declared with
(`ScalarType.Stores`), a function of attributes has null or a value that fits its result type
(`Aggregate.takes_apply`), and the two sides of a compiled comparison fit one another
(`HasType.fits`). Then **the comparison is unknown for no other reason than that a null is
compared** (`truth_eq_unknown_iff`), in a way that has no answer to nulls (`Open`).

Numbers are compared with numbers of either type, so that what a function makes of integers may be a
float; that it is no NaN is what makes the comparison have an outcome (`not_isNaN_floatSum`).
-/

namespace EntityQuery

/-! ## Values of a type -/

/-- The value is null, or of the type and finite. -/
def ScalarType.Stores (type : ScalarType) (v : Value) : Prop := v = .null ∨ type.Holds v

/-- The value can be compared with those of the type. A number can be compared with any number, so
that one which is made of numbers need not keep their type. -/
inductive ScalarType.Takes (type : ScalarType) : Value → Prop
  | null : Takes type .null
  | number {v : Value} {x : Float} (numeric : type.isNumeric = true) (float : v.float? = some x)
      (notNaN : x.isNaN = false) : Takes type v
  | other {v : Value} (notNumeric : type.isNumeric = false) (same : v.type? = some type) :
      Takes type v

namespace ScalarType

variable {type other : ScalarType} {v w : Value}

theorem takes_int (numeric : type.isNumeric = true) (i : Int64) : type.Takes (.int i) :=
  .number numeric rfl (Decimal.not_isNaN_of_isFinite (Decimal.isFinite_ofInt64 i))

theorem Holds.isNull (h : type.Holds v) : v.isNull = false := by
  cases v with
  | null => cases h.type
  | bool | int | float | text | date | dateTime | timestamp | uuid => rfl

/-- A number is given to a sum as a finite float. -/
theorem Holds.isFinite_addend (h : type.Holds v) (numeric : type.isNumeric = true) :
    (addend v).isFinite = true := by
  have made := Value.exists_eq_of_type? h.type
  cases type with
  | integer =>
    obtain ⟨i, rfl⟩ := made
    exact Decimal.isFinite_ofInt64 i
  | float =>
    obtain ⟨f, rfl⟩ := made
    exact h.finite f rfl
  | boolean | text | date | dateTime | timestamp | uuid => cases numeric

theorem Holds.takes (h : type.Holds v) : type.Takes v := by
  by_cases numeric : type.isNumeric = true
  · have made := Value.exists_eq_of_type? h.type
    cases type with
    | integer =>
      obtain ⟨i, rfl⟩ := made
      exact takes_int rfl i
    | float =>
      obtain ⟨f, rfl⟩ := made
      exact .number rfl rfl (Decimal.not_isNaN_of_isFinite (h.finite f rfl))
    | boolean | text | date | dateTime | timestamp | uuid => cases numeric
  · exact .other (Bool.not_eq_true _ ▸ numeric) h.type

theorem Stores.takes (h : type.Stores v) : type.Takes v := by
  rcases h with rfl | h
  · exact .null
  · exact h.takes

theorem Stores.holds (h : type.Stores v) (present : v.isNull = false) : type.Holds v := by
  rcases h with rfl | h
  · cases present
  · exact h

theorem Takes.text? (h : text.Takes v) (present : v.isNull = false) : v.text?.isSome = true := by
  cases h with
  | null => cases present
  | number numeric => cases numeric
  | other _ same =>
    obtain ⟨s, rfl⟩ := Value.exists_eq_of_type? same
    rfl

end ScalarType

/-- Two numbers have an order if neither of them is a NaN. -/
theorem Value.isSome_compare_numbers {v w : Value} {x y : Float} (hv : v.float? = some x)
    (hw : w.float? = some y) (hx : x.isNaN = false) (hy : y.isNaN = false) :
    (v.compare w).isSome = true := by
  have order : (compareFloats x y).isSome = true := by
    obtain ⟨o, ho⟩ := Decimal.exists_compareFloats hx hy
    rw [ho]
    rfl
  cases v with
  | int i =>
    cases hv
    cases w with
    | int j => rfl
    | float => cases hw; exact order
    | null | bool | text | date | dateTime | timestamp | uuid => cases hw
  | float =>
    cases hv
    cases w with
    | int | float => cases hw; exact order
    | null | bool | text | date | dateTime | timestamp | uuid => cases hw
  | null | bool | text | date | dateTime | timestamp | uuid => cases hv

theorem Expression.comparable_iff {a b : ScalarType} :
    comparable a b = true ↔ a = b ∨ a.isNumeric = true ∧ b.isNumeric = true := by
  simp [comparable]

namespace ScalarType

variable {type other : ScalarType} {v w : Value}

/-- Values that stand for types which can be compared have an order, unless one of them is null. -/
theorem Takes.isSome_compare (hv : type.Takes v) (hw : other.Takes w)
    (comparable : Expression.comparable other type = true) (hv' : v.isNull = false)
    (hw' : w.isNull = false) : (v.compare w).isSome = true := by
  have comparable := Expression.comparable_iff.mp comparable
  cases hv with
  | null => cases hv'
  | number numeric hx notNaN =>
    cases hw with
    | null => cases hw'
    | number _ hy notNaN' => exact Value.isSome_compare_numbers hx hy notNaN notNaN'
    | other notNumeric =>
      rcases comparable with rfl | ⟨numeric', _⟩
      · exact absurd numeric (by simp [notNumeric])
      · exact absurd numeric' (by simp [notNumeric])
  | other notNumeric same =>
    have equal : other = type := by
      rcases comparable with equal | ⟨_, numeric⟩
      · exact equal
      · exact absurd numeric (by simp [notNumeric])
    subst equal
    cases hw with
    | null => cases hw'
    | number numeric => exact absurd numeric (by simp [notNumeric])
    | other _ same' =>
      have notFloat : other ≠ .float := by
        rintro rfl
        cases notNumeric
      obtain ⟨o, ho⟩ := Value.exists_compare_eq_some notFloat same same'
      rw [ho]
      rfl

end ScalarType

/-! ## Functions of values -/

/-- Adding up finite floats never gives a NaN, not even where the sum becomes infinite. -/
theorem not_isNaN_floatSum {vs : List Value} (finite : ∀ v ∈ vs, (addend v).isFinite = true) :
    (floatSum vs).isNaN = false := by
  have sum (vs : List Value) (finite : ∀ v ∈ vs, (addend v).isFinite = true) (x : Float)
      (hx : x.isNaN = false) : ((vs.map addend).foldl (· + ·) x).isNaN = false := by
    induction vs generalizing x with
    | nil => exact hx
    | cons v vs ih =>
      obtain ⟨here, finite⟩ := List.forall_mem_cons.mp finite
      exact ih finite (x + addend v) (Decimal.not_isNaN_add hx here)
  exact sum vs finite 0.0 (by decide)

/-- What is not beaten is one of the values. -/
theorem extreme_mem (wanted : Ordering) {vs : List Value} (some_ : vs ≠ []) :
    extreme wanted vs ∈ vs := by
  have best (vs : List Value) (v : Value) : vs.foldl
      (fun best v => if v.compare best = some wanted then v else best) v ∈ v :: vs := by
    induction vs generalizing v with
    | nil => exact List.mem_singleton.mpr rfl
    | cons w vs ih =>
      rw [List.foldl_cons]
      by_cases beaten : w.compare v = some wanted
      · rw [if_pos beaten]
        exact List.mem_cons_of_mem v (ih w)
      · rw [if_neg beaten]
        rcases List.mem_cons.mp (ih v) with here | later
        · rw [here]
          exact List.mem_cons_self
        · exact List.mem_cons_of_mem v (List.mem_cons_of_mem w later)
  cases vs with
  | nil => exact absurd rfl some_
  | cons v vs => exact best vs v

theorem takes_extreme {type : ScalarType} (wanted : Ordering) {vs : List Value}
    (holds : ∀ v ∈ vs, type.Holds v) : type.Takes (extreme wanted vs) := by
  by_cases empty : vs = []
  · rw [empty]
    exact .null
  · exact (holds _ (extreme_mem wanted empty)).takes

/-- What a function makes of stored values can stand for its result type. -/
theorem Aggregate.takes_apply {f : Aggregate} {field : String} {of type : ScalarType}
    (result : f.resultType field of = .ok type) {values : List Value}
    (stored : ∀ v ∈ values, of.Stores v) : type.Takes (f.apply values) := by
  have holds : ∀ v ∈ values.filter (!·.isNull), of.Holds v := by
    intro v hv
    obtain ⟨hv, present⟩ := List.mem_filter.mp hv
    exact (stored v hv).holds (by simpa using present)
  unfold apply
  dsimp only
  generalize values.filter (!·.isNull) = present at holds
  have sum (numeric : of.isNumeric = true) : (floatSum present).isNaN = false :=
    not_isNaN_floatSum fun v hv => (holds v hv).isFinite_addend numeric
  unfold resultType at result
  cases f with
  | count | countDistinct =>
    cases result
    exact ScalarType.takes_int rfl _
  | sum =>
    dsimp only at result ⊢
    split at result
    · next numeric =>
      cases result
      split
      · exact .null
      · split
        · exact ScalarType.takes_int numeric _
        · exact .number numeric rfl (sum numeric)
    · cases result
  | avg =>
    dsimp only at result ⊢
    split at result
    · next numeric =>
      cases result
      split
      · exact .null
      · next notEmpty =>
        have pos : 0 < present.length := by
          rw [List.length_pos_iff]
          simpa using notEmpty
        exact .number rfl rfl (Decimal.not_isNaN_div_ofLength (sum numeric) pos)
    · cases result
  | max | greatest =>
    cases result
    exact takes_extreme .gt holds
  | min | least =>
    cases result
    exact takes_extreme .lt holds

/-! ## Comparisons -/

theorem Truth.ofBool_ne_unknown (b : Bool) : ofBool b ≠ .unknown := by
  cases b <;> nofun

/-- Whether what stands for an operand is null. -/
def OperandValue.isNull : OperandValue → Bool
  | one v => v.isNull
  | many _ => false

namespace Comparison

/-- The right side has the form that the operator asks for, and the values on both sides can be
compared, or searched for one another, unless one of them is null. -/
inductive Fits (c : Comparison) (left : Value) : OperandValue → Prop
  | null {right : OperandValue} (op : c.operator = .isNull) : Fits c left right
  | items {vs : List Value} (op : c.operator = .isIn)
      (comparable : left.isNull = false → ∀ v ∈ vs, (left.compare v).isSome = true) :
      Fits c left (.many vs)
  | values {right : Value} (notNull : c.operator ≠ .isNull) (notIn : c.operator ≠ .isIn)
      (comparable : left.isNull = false → right.isNull = false →
        (left.compare right).isSome = true)
      (texts : c.operator.isPattern = true → left.isNull = false → right.isNull = false →
        left.text?.isSome = true ∧ right.text?.isSome = true) :
      Fits c left (.one right)

/-- A null is compared in a way that has no answer to nulls. -/
def Open (c : Comparison) (left right : OperandValue) : Prop :=
  (left.isNull = true ∨ right.isNull = true) ∧ c.operator ≠ .isNull ∧
    ¬ (c.operator = .eq ∧ c.nullSafe = true) ∧ ¬ (c.operator = .isIn ∧ right = .many [])

variable {c : Comparison} {left : Value} {right : OperandValue}

theorem truth_eq_unknown_iff_positive :
    c.truth (.one left) right = .unknown ↔ c.positive left right = .unknown := by
  unfold truth
  dsimp only
  split
  · cases c.positive left right <;> simp [Truth.not]
  · rfl

theorem compareOne_eq_unknown_iff {right : Value}
    (comparable : left.isNull = false → right.isNull = false →
      (left.compare right).isSome = true)
    (texts : c.operator.isPattern = true → left.isNull = false → right.isNull = false →
      left.text?.isSome = true ∧ right.text?.isSome = true) :
    c.compareOne left right = .unknown ↔
      (left.isNull = true ∨ right.isNull = true) ∧ ¬ (c.operator = .eq ∧ c.nullSafe = true) := by
  unfold compareOne
  by_cases safe : c.operator = .eq ∧ c.nullSafe = true
  · rw [if_pos safe]
    exact iff_of_false (Truth.ofBool_ne_unknown _) fun h => h.2 safe
  · rw [if_neg safe, and_iff_left safe]
    by_cases null : left.isNull = true ∨ right.isNull = true
    · refine iff_of_true ?_ null
      rcases null with null | null
      · rw [Value.eq_null_of_isNull null, Value.compare_null_left]
        split <;> rfl
      · rw [Value.eq_null_of_isNull null, Value.compare_null_right]
        split
        · cases left.text? <;> rfl
        · rfl
    · refine iff_of_false ?_ null
      obtain ⟨present, present'⟩ := not_or.mp null
      have present : left.isNull = false := by simpa using present
      have present' : right.isNull = false := by simpa using present'
      split
      · next pattern =>
        obtain ⟨haystack, needle⟩ := texts pattern present present'
        obtain ⟨haystack, hleft⟩ := Option.isSome_iff_exists.mp haystack
        obtain ⟨needle, hright⟩ := Option.isSome_iff_exists.mp needle
        rw [hleft, hright]
        exact Truth.ofBool_ne_unknown _
      · obtain ⟨o, ho⟩ := Option.isSome_iff_exists.mp (comparable present present')
        rw [ho]
        exact Truth.ofBool_ne_unknown _

theorem among_eq_unknown_iff {v : Value} {items : List Value} :
    v.among items = .unknown ↔ v.isNull = true ∧ items ≠ [] := by
  unfold Value.among
  cases items with
  | nil => exact iff_of_false nofun fun h => h.2 rfl
  | cons w items =>
    by_cases null : v.isNull = true
    · simp [null]
    · simp [null, Truth.ofBool_ne_unknown]

/-- A comparison whose sides fit is unknown exactly if a null is compared and the comparison has no
answer to that. -/
theorem truth_eq_unknown_iff (fits : c.Fits left right) :
    c.truth (.one left) right = .unknown ↔ c.Open (.one left) right := by
  rw [truth_eq_unknown_iff_positive]
  cases fits with
  | null op =>
    have positive : c.positive left right = .ofBool left.isNull := by simp [positive, op]
    rw [positive]
    exact iff_of_false (Truth.ofBool_ne_unknown _) fun h => h.2.1 op
  | @items vs op comparable =>
    have positive : c.positive left (.many vs) = left.among vs := by simp [positive, op]
    rw [positive, among_eq_unknown_iff]
    simp [Open, OperandValue.isNull, op]
  | @values right notNull notIn comparable texts =>
    have positive : c.positive left (.one right) = c.compareOne left right := by
      unfold positive
      split <;> simp_all
    rw [positive, compareOne_eq_unknown_iff comparable texts]
    simp [Open, OperandValue.isNull, notNull]

/-- Wherever what is read can stand for its type, the sides of a comparison fit. -/
theorem HasType.fits {s : Schema} {root : Entity} {joins : Joins} {type : ScalarType}
    (typed : c.HasType s root joins type) {stands : Operand → OperandValue}
    (reads : ∀ o, o = c.left ∨ o = c.right → ∀ type, o.HasType s root joins type →
      ∃ v, stands o = .one v ∧ type.Takes v)
    (constants : ∀ o, o.reads? = none → stands o = .ofLiteral o) :
    ∃ left, stands c.left = .one left ∧ c.Fits left (stands c.right) := by
  obtain ⟨left, hleft, takes⟩ := reads c.left (.inl rfl) type typed.left
  refine ⟨left, hleft, ?_⟩
  have same : Expression.comparable type type = true := Expression.comparable_iff.mpr (.inl rfl)
  have text (pattern : c.operator.isPattern = true) (present : left.isNull = false) :
      left.text?.isSome = true := by
    have type := typed.text pattern
    subst type
    exact takes.text? present
  have right := typed.right
  generalize hop : c.operator = op, ho : c.right = o at right
  cases right with
  | null => exact .null hop
  | @list vs holds =>
    rw [constants (.list vs) rfl]
    refine .items hop fun present v hv => ?_
    exact takes.isSome_compare (holds v hv).takes same present (holds v hv).isNull
  | @literal _ v notNull notIn holds =>
    rw [constants (.literal v) rfl]
    refine .values (hop ▸ notNull) (hop ▸ notIn) (takes.isSome_compare holds.takes same) ?_
    intro pattern present present'
    have type := typed.text pattern
    subst type
    exact ⟨text pattern present, holds.takes.text? present'⟩
  | @read _ _ other notNull notIn read comparable texts =>
    obtain ⟨v, hv, takes'⟩ := reads o (.inr ho.symm) other read
    rw [hv]
    refine .values (hop ▸ notNull) (hop ▸ notIn) (takes.isSome_compare takes' comparable) ?_
    intro pattern present present'
    have type := texts (hop ▸ pattern)
    subst type
    exact ⟨text pattern present, takes'.text? present'⟩

end Comparison

end EntityQuery
