import EntityQuery.Proofs.StableSort
import EntityQuery.Sql.Bind
import Mathlib.Order.Compare

/-!
# The order of the values of one type

Values of one type are compared as what they carry, and so **they always have an order**
(`exists_compare_eq_some`), which is a total preorder (`orders_compare`) and an equality only of
what is the same (`eq_of_compare_eq`). Floats are left out, since a NaN has no order with itself.
The three facts are proved once for whatever a constructor makes of an ordered type (`MadeBy`).
-/

namespace EntityQuery

open Std (LawfulEqOrd TransCmp TransOrd)

/-! ## Moments and identifiers -/

instance : TransOrd Calendar.Date :=
  inferInstanceAs (TransCmp (compareLex (compareOn Calendar.Date.year)
    (compareLex (compareOn Calendar.Date.month) (compareOn Calendar.Date.day))))

instance : TransOrd Calendar.TimeOfDay :=
  inferInstanceAs (TransCmp (compareLex (compareOn Calendar.TimeOfDay.hour)
    (compareLex (compareOn Calendar.TimeOfDay.minute)
      (compareLex (compareOn Calendar.TimeOfDay.second)
        (compareOn Calendar.TimeOfDay.nanosecond)))))

instance : TransOrd Calendar.DateTime :=
  inferInstanceAs (TransCmp (compareLex (compareOn Calendar.DateTime.date)
    (compareOn Calendar.DateTime.time)))

instance : TransOrd Calendar.Timestamp :=
  inferInstanceAs (TransCmp (compareOn Calendar.Timestamp.utc))

instance : TransOrd Uuid := inferInstanceAs (TransCmp (compareOn Uuid.digits))

instance : LawfulEqOrd Calendar.Date where
  eq_of_compare {a b} h := by
    obtain ⟨year, h⟩ := Ordering.then_eq_eq.mp h
    obtain ⟨month, day⟩ := Ordering.then_eq_eq.mp h
    obtain ⟨_, _, _, _⟩ := a
    obtain ⟨_, _, _, _⟩ := b
    cases LawfulEqOrd.eq_of_compare year
    cases LawfulEqOrd.eq_of_compare month
    cases LawfulEqOrd.eq_of_compare day
    rfl

instance : LawfulEqOrd Calendar.TimeOfDay where
  eq_of_compare {a b} h := by
    obtain ⟨hour, h⟩ := Ordering.then_eq_eq.mp h
    obtain ⟨minute, h⟩ := Ordering.then_eq_eq.mp h
    obtain ⟨second, nanosecond⟩ := Ordering.then_eq_eq.mp h
    obtain ⟨_, _, _, _, _⟩ := a
    obtain ⟨_, _, _, _, _⟩ := b
    cases LawfulEqOrd.eq_of_compare hour
    cases LawfulEqOrd.eq_of_compare minute
    cases LawfulEqOrd.eq_of_compare second
    cases LawfulEqOrd.eq_of_compare nanosecond
    rfl

instance : LawfulEqOrd Calendar.DateTime where
  eq_of_compare {a b} h := by
    obtain ⟨date, time⟩ := Ordering.then_eq_eq.mp h
    obtain ⟨_, _⟩ := a
    obtain ⟨_, _⟩ := b
    cases LawfulEqOrd.eq_of_compare date
    cases LawfulEqOrd.eq_of_compare time
    rfl

instance : LawfulEqOrd Calendar.Timestamp where
  eq_of_compare h := congrArg Calendar.Timestamp.mk (LawfulEqOrd.eq_of_compare h)

instance : LawfulEqOrd Uuid where
  eq_of_compare {a b} h := by
    obtain ⟨digits, _⟩ := a
    obtain ⟨digits', _⟩ := b
    have same : compare digits digits' = .eq := h
    cases LawfulEqOrd.eq_of_compare same
    rfl

namespace Value

theorem isNull_of_type? {v : Value} {type : ScalarType} (h : v.type? = some type) :
    v.isNull = false := by
  cases v <;> first | rfl | cases h

/-- A value of a type is what the constructor of the type makes. -/
theorem exists_eq_of_type? {type : ScalarType} {v : Value} (h : v.type? = some type) :
    match type with
    | .boolean => ∃ b, bool b = v
    | .integer => ∃ i, int i = v
    | .float => ∃ f, float f = v
    | .text => ∃ s, text s = v
    | .date => ∃ d, date d = v
    | .dateTime => ∃ t, dateTime t = v
    | .timestamp => ∃ t, timestamp t = v
    | .uuid => ∃ u, uuid u = v := by
  cases v <;> cases h <;> exact ⟨_, rfl⟩

/-- The values of a type are those made by `make`, compared as what they are made of. -/
def MadeBy {α : Type} (type : ScalarType) (cmp : α → α → Ordering) (make : α → Value) : Prop :=
  (∀ v : Value, v.type? = some type → ∃ a, make a = v) ∧
    ∀ a b, (make a).compare (make b) = some (cmp a b)

theorem exists_madeBy {type : ScalarType} (notFloat : type ≠ .float) :
    ∃ (α : Type) (cmp : α → α → Ordering) (make : α → Value),
      TransCmp cmp ∧ MadeBy type cmp make := by
  have made := fun v => @exists_eq_of_type? type v
  cases type with
  | float => contradiction
  | boolean => exact ⟨Bool, Ord.compare, bool, inferInstance, made, fun _ _ => rfl⟩
  | integer => exact ⟨Int64, compareOn Int64.toInt, int, inferInstance, made, fun _ _ => rfl⟩
  | text => exact ⟨String, Ord.compare, text, inferInstance, made, fun _ _ => rfl⟩
  | date => exact ⟨Calendar.Date, Ord.compare, date, inferInstance, made, fun _ _ => rfl⟩
  | dateTime =>
    exact ⟨Calendar.DateTime, Ord.compare, dateTime, inferInstance, made, fun _ _ => rfl⟩
  | timestamp =>
    exact ⟨Calendar.Timestamp, Ord.compare, timestamp, inferInstance, made, fun _ _ => rfl⟩
  | uuid => exact ⟨Uuid, Ord.compare, uuid, inferInstance, made, fun _ _ => rfl⟩

variable {type : ScalarType} (notFloat : type ≠ .float)

include notFloat

/-- Two values of one type have an order. -/
theorem exists_compare_eq_some {v w : Value} (hv : v.type? = some type)
    (hw : w.type? = some type) : ∃ o, v.compare w = some o := by
  obtain ⟨_, cmp, _, _, made, compared⟩ := exists_madeBy notFloat
  obtain ⟨a, rfl⟩ := made v hv
  obtain ⟨b, rfl⟩ := made w hw
  exact ⟨cmp a b, compared a b⟩

theorem orders_compare :
    Orders (fun v : Value => v.type? = some type) fun v w => (v.compare w).getD .eq := by
  obtain ⟨_, cmp, _, trans, made, compared⟩ := exists_madeBy notFloat
  refine { eq_swap := ?_, isLE_trans := ?_ }
  · rintro ⟨v, hv⟩ ⟨w, hw⟩
    obtain ⟨a, rfl⟩ := made v hv
    obtain ⟨b, rfl⟩ := made w hw
    simp only [compared, Option.getD_some]
    exact trans.eq_swap
  · rintro ⟨v, hv⟩ ⟨w, hw⟩ ⟨u, hu⟩ hvw hwu
    obtain ⟨a, rfl⟩ := made v hv
    obtain ⟨b, rfl⟩ := made w hw
    obtain ⟨c, rfl⟩ := made u hu
    simp only [compared, Option.getD_some] at hvw hwu ⊢
    exact trans.isLE_trans hvw hwu

/-- Values of one type that are compared as equal are the same. -/
theorem eq_of_compare_eq {v w : Value} (hv : v.type? = some type) (hw : w.type? = some type)
    (h : v.compare w = some .eq) : v = w := by
  have hv := exists_eq_of_type? hv
  have hw := exists_eq_of_type? hw
  cases type with
  | float => contradiction
  | integer =>
    obtain ⟨i, rfl⟩ := hv
    obtain ⟨j, rfl⟩ := hw
    have same : Ord.compare i.toInt j.toInt = .eq := Option.some.inj h
    rw [Int64.toInt_inj.mp (LawfulEqOrd.eq_of_compare same)]
  | boolean | text | date | dateTime | timestamp | uuid =>
    obtain ⟨a, rfl⟩ := hv
    obtain ⟨b, rfl⟩ := hw
    exact congrArg _ (LawfulEqOrd.eq_of_compare (Option.some.inj h))

end Value

end EntityQuery
