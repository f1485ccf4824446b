import EntityQuery.Dataset.Store
import EntityQuery.Proofs.Dataset.Index
import EntityQuery.Proofs.Value.Order

/-!
# Records in order

Records are in order (`InOrder`) when the first sort key that tells them apart puts the one before
the other, nulls coming last whatever the direction, and when their identifiers do where no sort key
tells them apart. As long as ids and sort fields each hold values of one type, **the comparison of
records is a total preorder that says the same** (`orders_compareRecords`, `inOrder_iff`), and there
is only one way to put the rows of an exact table in order: as far as its records are told apart by
their keys, the comparison is a strict order (`strictlyOrdered`).
-/

namespace EntityQuery

/-! ## The order in a direction -/

/-- Both values are null, or they are equal. -/
def Value.Tied (x y : Value) : Prop :=
  x.isNull = true ∧ y.isNull = true ∨ x.compare y = some .eq

namespace Direction

/-- How a value is compared with those that come after it. -/
def leading : Direction → Ordering
  | ascending => .lt
  | descending => .gt

/-- The first value comes before the second: only the second is null, or the direction says so. -/
def Before (d : Direction) (x y : Value) : Prop :=
  x.isNull = false ∧ y.isNull = true ∨ x.compare y = some d.leading

variable {type : ScalarType} (notFloat : type ≠ .float) (d : Direction)

include notFloat

theorem orders_compareValues :
    Orders (fun v : Value => v.isNull = true ∨ v.type? = some type) d.compareValues := by
  have orders := Value.orders_compare notFloat
  have typed {v : Value} (h : v.isNull = true ∨ v.type? = some type) (hn : v.isNull = false) :
      v.type? = some type := by
    simpa [hn] using h
  refine { eq_swap := ?_, isLE_trans := ?_ }
  · rintro ⟨v, hv⟩ ⟨w, hw⟩
    unfold compareValues
    cases nv : v.isNull <;> cases nw : w.isNull <;> try rfl
    have swap := orders.swap (typed hv nv) (typed hw nw)
    cases d <;> simp [swap]
  · rintro ⟨v, hv⟩ ⟨w, hw⟩ ⟨u, hu⟩
    unfold compareValues
    cases nv : v.isNull <;> cases nw : w.isNull <;> cases nu : u.isNull <;> simp
    -- None of the three is null, so that the order of the type decides, in either direction.
    have hv := typed hv nv
    have hw := typed hw nw
    have hu := typed hu nu
    cases d with
    | ascending => exact orders.trans hv hw hu
    | descending =>
      rw [← orders.swap hv hw, ← orders.swap hw hu, ← orders.swap hv hu]
      exact fun hvw hwu => orders.trans hu hw hv hwu hvw

/-- What the comparison of two values says of them. -/
theorem compareValues_says {x y : Value} (hx : x.isNull = true ∨ x.type? = some type)
    (hy : y.isNull = true ∨ y.type? = some type) :
    (d.compareValues x y = .lt ↔ d.Before x y) ∧ (d.compareValues x y = .eq ↔ x.Tied y) := by
  unfold compareValues Before Value.Tied
  cases nx : x.isNull <;> cases ny : y.isNull <;> simp only [nx, ny] at hx hy ⊢
  · obtain ⟨o, ho⟩ := Value.exists_compare_eq_some notFloat (by simpa using hx) (by simpa using hy)
    rw [ho]
    cases d <;> cases o <;> simp [leading]
  all_goals cases x <;> cases y <;> simp_all [Value.isNull]

end Direction

/-! ## The order of records -/

namespace Record

/-- The first record comes before the second by these sort keys, or by the identifiers where the
keys leave them tied. -/
def InOrder (a b : Record) : List OrderKey → Prop
  | [] => ∃ o, a.id.compare b.id = some o ∧ o.isLE
  | key :: rest =>
    key.direction.Before (a.field key.attr) (b.field key.attr) ∨
      (a.field key.attr).Tied (b.field key.attr) ∧ InOrder a b rest

/-- The value of the attribute is null or of one type in all the records. -/
def Typed (rows : List Record) (attr : String) : Prop :=
  ∃ type, type ≠ ScalarType.float ∧
    ∀ r ∈ rows, (r.field attr).isNull = true ∨ (r.field attr).type? = some type

variable {rows : List Record} {order : List OrderKey} {type : ScalarType}

section

variable (notFloat : type ≠ .float) (ids : ∀ r ∈ rows, r.id.type? = some type)
  (fields : ∀ key ∈ order, Typed rows key.attr)

include notFloat ids fields

theorem orders_compareRecords :
    Orders (fun r => r ∈ rows) fun a b => compareRecords a b order := by
  induction order with
  | nil => exact (Value.orders_compare notFloat).on Record.id ids
  | cons key rest ih =>
    obtain ⟨⟨fieldType, notFloat, typed⟩, fields⟩ := List.forall_mem_cons.mp fields
    have first := (key.direction.orders_compareValues notFloat).on (Record.field · key.attr) typed
    exact first.next (ih fields)

theorem inOrder_iff {a b : Record} (ha : a ∈ rows) (hb : b ∈ rows) :
    a.InOrder b order ↔ (compareRecords a b order).isLE = true := by
  induction order with
  | nil =>
    obtain ⟨o, ho⟩ := Value.exists_compare_eq_some notFloat (ids a ha) (ids b hb)
    simp [InOrder, compareRecords, ho]
  | cons key rest ih =>
    obtain ⟨⟨fieldType, notFloat, typed⟩, fields⟩ := List.forall_mem_cons.mp fields
    obtain ⟨before, tied⟩ := key.direction.compareValues_says notFloat (typed a ha) (typed b hb)
    rw [InOrder, compareRecords, Ordering.isLE_then_iff_or, before, tied, ih fields]

omit fields in
theorem id_eq_of_compareRecords {a b : Record} (ha : a ∈ rows) (hb : b ∈ rows)
    (h : compareRecords a b order = .eq) : a.id = b.id := by
  refine Value.eq_of_compare_eq notFloat (ids a ha) (ids b hb) ?_
  induction order with
  | nil =>
    obtain ⟨o, ho⟩ := Value.exists_compare_eq_some notFloat (ids a ha) (ids b hb)
    rw [compareRecords, ho] at h
    exact ho.trans (congrArg some h)
  | cons key rest ih => exact ih (Ordering.then_eq_eq.mp h).2

/-- Records of which each comes before the other have the same identifier. -/
theorem id_eq_of_inOrder {a b : Record} (ha : a ∈ rows) (hb : b ∈ rows)
    (hab : a.InOrder b order) (hba : b.InOrder a order) : a.id = b.id := by
  have orders := orders_compareRecords notFloat ids fields
  have hab := (inOrder_iff notFloat ids fields ha hb).mp hab
  have hba := (inOrder_iff notFloat ids fields hb ha).mp hba
  exact id_eq_of_compareRecords notFloat ids ha hb (orders.eq_of_isLE ha hb hab hba)

end

/-! ## Records told apart by their identifiers -/

/-- The comparison is a strict total order of the records, and it puts the one before the other that
comes before it by the sort keys and the identifier. -/
structure StrictlyOrdered (rows : List Record) (order : List OrderKey) : Prop where
  eq_iff : ∀ a ∈ rows, ∀ b ∈ rows, compareRecords a b order = .eq ↔ a = b
  swap : ∀ a ∈ rows, ∀ b ∈ rows, compareRecords b a order = (compareRecords a b order).swap
  trans : ∀ a ∈ rows, ∀ b ∈ rows, ∀ c ∈ rows, compareRecords a b order = .lt →
    compareRecords b c order = .lt → compareRecords a c order = .lt
  lt_iff : ∀ a ∈ rows, ∀ b ∈ rows, compareRecords a b order = .lt ↔ a.InOrder b order ∧ a ≠ b

theorem strictlyOrdered (notFloat : type ≠ .float) (ids : ∀ r ∈ rows, r.id.type? = some type)
    (fields : ∀ key ∈ order, Typed rows key.attr) (distinct : (rows.map key).Nodup) :
    StrictlyOrdered rows order := by
  have orders := orders_compareRecords notFloat ids fields
  have eq_iff : ∀ a ∈ rows, ∀ b ∈ rows, compareRecords a b order = .eq ↔ a = b := by
    intro a ha b hb
    constructor
    · intro tied
      have id := id_eq_of_compareRecords notFloat ids ha hb tied
      exact List.inj_on_of_nodup_map distinct ha hb (congrArg Value.key id)
    · rintro rfl
      have swap := orders.swap ha ha
      cases h : compareRecords a a order <;> simp_all
  have lt_iff : ∀ a ∈ rows, ∀ b ∈ rows,
      compareRecords a b order = .lt ↔ (compareRecords a b order).isLE = true ∧ a ≠ b := by
    intro a ha b hb
    rw [Ne, ← eq_iff a ha b hb]
    cases compareRecords a b order <;> simp
  refine ⟨eq_iff, fun a ha b hb => orders.swap ha hb, ?trans, ?ordered⟩
  case trans =>
    intro a ha b hb c hc hab hbc
    have before := orders.trans ha hb hc ((lt_iff a ha b hb).mp hab).1 ((lt_iff b hb c hc).mp hbc).1
    refine (lt_iff a ha c hc).mpr ⟨before, ?_⟩
    rintro rfl
    rw [orders.swap ha hb, hab] at hbc
    cases hbc
  case ordered =>
    intro a ha b hb
    rw [inOrder_iff notFloat ids fields ha hb]
    exact lt_iff a ha b hb

end Record

end EntityQuery
