import EntityQuery.Dataset.Evaluation
import EntityQuery.Proofs.Value.Keys
import Mathlib.Algebra.BigOperators.Group.List.Basic
import Mathlib.Algebra.Order.Ring.Int
import Mathlib.Tactic.ByContra

/-!
# Sums of integers

The sum of integers is taken in the order of the rows and stays an integer as long as each sum on
the way has 64 bits (`Fits`); otherwise it is the sum of floats. The sums on the way are those of
the first few integers, so **which of the two is the case depends on the order**
(`integer_sum_exact_iff`).

* Any part of the integers adds up to at least the sum of the negative ones and at most the sum of
  the others (`total_between`), and these two parts can come first: the order does not matter
  exactly if their sums have 64 bits (`fits_perm_iff`).
* If only the sum of all integers does, then some order keeps to integers (`exists_perm_fits`): a
  negative integer goes after a sum that is not negative, and another one after a sum that is
  (`exists_next`).
-/

namespace EntityQuery

/-- The integer, if the value is one. -/
def Value.int? : Value → Option Int64
  | int i => some i
  | _ => none

namespace IntegerSum

open Decimal (IsInt64)

/-- The integers among values. -/
def integers (values : List Value) : List Int64 := values.filterMap Value.int?

/-- The exact sum. -/
def total (ns : List Int64) : Int := (ns.map Int64.toInt).sum

/-- The integers below zero. -/
def negatives (ns : List Int64) : List Int64 := ns.filter fun n => n.toInt < 0

/-- The integers that are not below zero. -/
def others (ns : List Int64) : List Int64 := ns.filter fun n => !(n.toInt < 0)

/-- Starting from `start`, all sums on the way have 64 bits. -/
def Fits (start : Int) (ns : List Int64) : Prop :=
  ∀ part, part <+: ns → IsInt64 (start + total part)

/-- The sum of the values is the exact sum of the integers among them. -/
def Exact (values : List Value) : Prop :=
  ∃ i, Aggregate.sum.apply values = .int i ∧ i.toInt = total (integers values)

variable {a b : Int} {n : Int64} {ms ns part : List Int64} {values order : List Value}

@[simp] theorem total_nil : total [] = 0 := rfl

@[simp] theorem total_cons : total (n :: ns) = n.toInt + total ns := by
  simp [total]

theorem total_perm (h : ms.Perm ns) : total ms = total ns := (h.map Int64.toInt).sum_eq

theorem isInt64_toInt (n : Int64) : IsInt64 n.toInt := ⟨n.le_toInt, n.toInt_lt⟩

theorem toInt_ofInt (h : IsInt64 a) : (Int64.ofInt a).toInt = a := by
  obtain ⟨low, high⟩ := h
  exact Int64.toInt_ofInt_of_le low high

/-! ## Adding in order -/

theorem Fits.start (h : Fits a ns) : IsInt64 a := by
  simpa using h [] List.nil_prefix

theorem Fits.isInt64_total (h : Fits a ns) : IsInt64 (a + total ns) := h ns (List.prefix_refl ns)

theorem fits_nil_iff : Fits a [] ↔ IsInt64 a := by
  simp [Fits]

theorem fits_cons_iff : Fits a (n :: ns) ↔ IsInt64 a ∧ Fits (a + n.toInt) ns := by
  simp only [Fits, List.prefix_cons_iff]
  constructor
  · intro h
    refine ⟨by simpa using h [] (.inl rfl), fun part hp => ?_⟩
    simpa [Int.add_assoc] using h (n :: part) (.inr ⟨part, rfl, hp⟩)
  · rintro ⟨start, h⟩ part (rfl | ⟨part, rfl, hp⟩)
    · simpa using start
    · simpa [Int.add_assoc] using h part hp

theorem addWithin_int_iff : addWithin a (.int n) = some b ↔ a + n.toInt = b ∧ IsInt64 b := by
  unfold addWithin
  dsimp only
  split
  · next fits =>
    constructor
    · intro h
      cases h
      exact ⟨rfl, fits⟩
    · rintro ⟨rfl, _⟩
      rfl
  · next wide =>
    refine ⟨nofun, ?_⟩
    rintro ⟨rfl, fits⟩
    exact absurd fits wide

/-- Integers are added as long as the sums on the way fit. -/
theorem foldlM_addWithin_iff (start : IsInt64 a) :
    (ns.map Value.int).foldlM addWithin a = some b ↔ a + total ns = b ∧ Fits a ns := by
  induction ns generalizing a with
  | nil => simp [fits_nil_iff, start]
  | cons n ns ih =>
    rw [List.map_cons, List.foldlM_cons, Option.bind_eq_bind, Option.bind_eq_some_iff,
      fits_cons_iff, total_cons, ← Int.add_assoc]
    constructor
    · rintro ⟨c, hc, h⟩
      obtain ⟨rfl, fits⟩ := addWithin_int_iff.mp hc
      obtain ⟨sum, way⟩ := (ih fits).mp h
      exact ⟨sum, start, way⟩
    · rintro ⟨sum, _, way⟩
      exact ⟨_, addWithin_int_iff.mpr ⟨rfl, way.start⟩, (ih way.start).mpr ⟨sum, way⟩⟩

/-! ## Orders in which the sums fit -/

/-- A part of the integers adds up to no less than the negative ones and no more than the others. -/
theorem total_between (h : part.Sublist ns) :
    total (negatives ns) ≤ total part ∧ total part ≤ total (others ns) := by
  induction h with
  | slnil => simp [negatives, others]
  | cons n h ih | cons_cons n h ih =>
    unfold negatives others at ih ⊢
    by_cases negative : n.toInt < 0 <;> simp [negative] <;> omega

theorem isInt64_between {c : Int} (ha : IsInt64 a) (hb : IsInt64 b) (low : a ≤ c) (high : c ≤ b) :
    IsInt64 c := ⟨ha.1.trans low, high.trans_lt hb.2⟩

/-- The sums on the way fit in every order exactly if those of the negative integers and of the
others do. -/
theorem fits_perm_iff :
    (∀ ms, ms.Perm ns → Fits 0 ms) ↔
      IsInt64 (total (negatives ns)) ∧ IsInt64 (total (others ns)) := by
  have parted : (negatives ns ++ others ns).Perm ns := List.filter_append_perm _ ns
  constructor
  · intro h
    constructor
    · simpa using h _ parted _ (List.prefix_append _ _)
    · simpa using h _ (List.perm_append_comm.trans parted) _ (List.prefix_append _ _)
  · rintro ⟨low, high⟩ ms perm part hp
    obtain ⟨below, above⟩ := total_between hp.sublist
    have same : total (negatives ms) = total (negatives ns) := total_perm (perm.filter _)
    have same' : total (others ms) = total (others ns) := total_perm (perm.filter _)
    rw [Int.zero_add]
    exact isInt64_between low high (same ▸ below) (same' ▸ above)

/-- If the whole sum fits, there is an integer that can be added next. -/
theorem exists_next (start : IsInt64 a) (whole : IsInt64 (a + total ns)) (ne : ns ≠ []) :
    ∃ n ∈ ns, IsInt64 (a + n.toInt) := by
  by_cases back : ∃ n ∈ ns, (n.toInt < 0 ↔ 0 ≤ a)
  · obtain ⟨n, hn, sign⟩ := back
    have := isInt64_toInt n
    unfold IsInt64 at *
    exact ⟨n, hn, by omega⟩
  · -- All integers lead away from zero, so that none leads further than all of them.
    simp only [not_exists, not_and, not_iff] at back
    obtain ⟨n, hn⟩ := List.exists_mem_of_ne_nil ns ne
    have between := total_between (List.singleton_sublist.mpr hn)
    rw [total_cons, total_nil, add_zero] at between
    refine ⟨n, hn, ?_⟩
    by_cases sign : 0 ≤ a
    · have none : negatives ns = [] :=
        List.filter_eq_nil_iff.mpr fun m hm => by simpa using (back m hm).mpr sign
      have all : others ns = ns :=
        List.filter_eq_self.mpr fun m hm => by simpa using (back m hm).mpr sign
      rw [none, all, total_nil] at between
      exact isInt64_between start whole (by omega) (by omega)
    · have all : negatives ns = ns :=
        List.filter_eq_self.mpr fun m hm => by simpa [sign] using back m hm
      have none : others ns = [] :=
        List.filter_eq_nil_iff.mpr fun m hm => by simpa [sign] using back m hm
      rw [none, all, total_nil] at between
      exact isInt64_between whole start (by omega) (by omega)

/-- If the whole sum fits, the sums on the way fit in some order. -/
theorem exists_perm_fits (start : IsInt64 a) (whole : IsInt64 (a + total ns)) :
    ∃ ms, ms.Perm ns ∧ Fits a ms := by
  induction hl : ns.length generalizing a ns with
  | zero =>
    rw [List.length_eq_zero_iff.mp hl]
    exact ⟨[], .refl _, fits_nil_iff.mpr start⟩
  | succ l ih =>
    obtain ⟨n, hn, next⟩ := exists_next start whole (List.ne_nil_of_length_eq_add_one hl)
    have taken : ns.Perm (n :: ns.erase n) := List.perm_cons_erase hn
    have rest : total ns = n.toInt + total (ns.erase n) := total_perm taken
    rw [rest, ← Int.add_assoc] at whole
    obtain ⟨ms, perm, fits⟩ := ih next whole (by rw [List.length_erase_of_mem hn, hl]; rfl)
    exact ⟨n :: ms, (perm.cons n).trans taken.symm, fits_cons_iff.mpr ⟨start, fits⟩⟩

/-! ## Values -/

/-- Each of the values is null or an integer. -/
def OnlyIntegers (values : List Value) : Prop := ∀ v ∈ values, v = .null ∨ ∃ i, v = .int i

theorem integers_map_int : integers (ns.map Value.int) = ns := by
  simp [integers, List.filterMap_map, Function.comp_def, Value.int?]

theorem integers_eq_nil_of_null (h : ∀ v ∈ values, v = .null) : integers values = [] :=
  List.filterMap_eq_nil_iff.mpr fun v hv => by rw [h v hv]; rfl

section

variable (only : OnlyIntegers values)

include only

theorem filter_present : values.filter (!·.isNull) = (integers values).map Value.int := by
  induction values with
  | nil => rfl
  | cons v values ih =>
    obtain ⟨first, rest⟩ := List.forall_mem_cons.mp only
    rcases first with rfl | ⟨i, rfl⟩
    · exact ih rest
    · exact congrArg (Value.int i :: ·) (ih rest)

/-- Every order of the integers is one that the values can have. -/
theorem exists_order (h : ms.Perm (integers values)) :
    ∃ order, order.Perm values ∧ integers order = ms := by
  refine ⟨values.filter Value.isNull ++ ms.map Value.int, ?_, ?_⟩
  · have parted := List.filter_append_perm Value.isNull values
    rw [filter_present only] at parted
    exact ((h.map _).append_left _).trans parted
  · have nulls : integers (values.filter Value.isNull) = [] :=
      integers_eq_nil_of_null fun v hv => Value.eq_null_of_isNull (List.mem_filter.mp hv).2
    rw [integers, List.filterMap_append]
    exact (congrArg₂ _ nulls integers_map_int)

/-- What the sum of integers is. -/
theorem apply_sum (ne : integers values ≠ []) :
    Aggregate.sum.apply values =
      (((integers values).map Value.int).foldlM addWithin 0).elim
        (.float (floatSum ((integers values).map Value.int))) fun sum => .int (Int64.ofInt sum) := by
  have notEmpty : ((integers values).map Value.int).isEmpty = false := by simpa using ne
  simp only [Aggregate.apply, filter_present only, notEmpty, Bool.false_eq_true, if_false]
  cases ((integers values).map Value.int).foldlM addWithin 0 <;> rfl

theorem exact_iff (ne : integers values ≠ []) : Exact values ↔ Fits 0 (integers values) := by
  have zero : IsInt64 0 := by decide
  unfold Exact
  rw [apply_sum only ne]
  constructor
  · rintro ⟨i, h, _⟩
    cases hsum : ((integers values).map Value.int).foldlM addWithin 0 with
    | none => rw [hsum] at h; cases h
    | some sum => exact ((foldlM_addWithin_iff zero).mp hsum).2
  · intro fits
    have whole := fits.isInt64_total
    rw [(foldlM_addWithin_iff zero).mpr ⟨rfl, fits⟩]
    exact ⟨_, rfl, by rw [toInt_ofInt whole, Int.zero_add]⟩

/-- Where the sums on the way do not fit, floats are added instead. -/
theorem apply_sum_of_not_fits (ne : integers values ≠ []) (wide : ¬ Fits 0 (integers values)) :
    Aggregate.sum.apply values = .float (floatSum (values.filter (!·.isNull))) := by
  have zero : IsInt64 0 := by decide
  rw [apply_sum only ne, filter_present only]
  cases hsum : ((integers values).map Value.int).foldlM addWithin 0 with
  | none => rfl
  | some sum => exact absurd ((foldlM_addWithin_iff zero).mp hsum).2 wide

end

/-- **When the sum of integers is exact.** The sum of integers and nulls, at least one of them an
integer, in each of their orders: it is exact where the sums on the way have 64 bits, and otherwise
the sum of floats. So it is exact in every order if the negative integers by themselves and the
others by themselves add up to 64 bits, and in some order if all of them do. -/
theorem integer_sum_exact_iff (only : OnlyIntegers values) (one : ∃ i, Value.int i ∈ values) :
    (∀ order, order.Perm values →
      (Exact order ↔ Fits 0 (integers order)) ∧
        (¬ Exact order →
          Aggregate.sum.apply order = .float (floatSum (order.filter (!·.isNull))))) ∧
    ((∀ order, order.Perm values → Exact order) ↔
      IsInt64 (total (negatives (integers values))) ∧
        IsInt64 (total (others (integers values)))) ∧
    ((∃ order, order.Perm values ∧ Exact order) ↔ IsInt64 (total (integers values))) := by
  have reordered {order : List Value} (h : order.Perm values) :
      (integers order).Perm (integers values) :=
    h.filterMap Value.int?
  have ne {order : List Value} (h : order.Perm values) : integers order ≠ [] := by
    obtain ⟨i, hi⟩ := one
    exact List.ne_nil_of_mem (List.mem_filterMap.mpr ⟨_, h.mem_iff.mpr hi, rfl⟩)
  have exact_order {order : List Value} (h : order.Perm values) :
      Exact order ↔ Fits 0 (integers order) :=
    exact_iff (fun v hv => only v (h.mem_iff.mp hv)) (ne h)
  refine ⟨fun order h => ⟨exact_order h, fun inexact => ?_⟩, ?_, ?_⟩
  · exact apply_sum_of_not_fits (fun v hv => only v (h.mem_iff.mp hv)) (ne h)
      (mt (exact_order h).mpr inexact)
  · rw [← fits_perm_iff]
    constructor
    · intro h ms perm
      obtain ⟨order, ho, rfl⟩ := exists_order only perm
      exact (exact_order ho).mp (h order ho)
    · exact fun h order ho => (exact_order ho).mpr (h _ (reordered ho))
  · constructor
    · rintro ⟨order, ho, exact⟩
      have whole := ((exact_order ho).mp exact).isInt64_total
      rwa [Int.zero_add, total_perm (reordered ho)] at whole
    · intro whole
      obtain ⟨ms, perm, fits⟩ := exists_perm_fits (a := 0) (by decide) (by rwa [Int.zero_add])
      obtain ⟨order, ho, rfl⟩ := exists_order only perm
      exact ⟨order, ho, (exact_order ho).mpr fits⟩

/-- Integers with a sum of 64 bits, the first two of which add up to more. -/
def prizes : List Value := [.int Int64.maxValue, .null, .int 1, .int (-2)]

theorem integer_sum_exact_iff_prizes :
    OnlyIntegers prizes ∧ (∃ i, Value.int i ∈ prizes) ∧
      (∃ order, order.Perm prizes ∧ Exact order) ∧ ∃ order, order.Perm prizes ∧ ¬ Exact order := by
  have only : OnlyIntegers prizes := by
    intro v hv
    simp only [prizes, List.mem_cons, List.not_mem_nil, or_false] at hv
    rcases hv with rfl | rfl | rfl | rfl <;> simp
  have one : ∃ i, Value.int i ∈ prizes := ⟨1, by simp [prizes]⟩
  obtain ⟨_, every, some⟩ := integer_sum_exact_iff only one
  refine ⟨only, one, some.mpr (by decide), ?_⟩
  by_contra h
  simp only [not_exists, not_and, not_not] at h
  exact absurd (every.mp h).2 (by decide)

/-- A sum that has 64 bits and is lost in one order of the integers, and not in another. -/
theorem integer_sum_depends_on_order :
    IsInt64 (total [Int64.maxValue, 1, -2]) ∧
      ¬ Exact [.int Int64.maxValue, .int 1, .int (-2)] ∧
      Exact [.int 1, .int (-2), .int Int64.maxValue] := by
  have only (ns : List Int64) : OnlyIntegers (ns.map Value.int) := by
    intro v hv
    obtain ⟨i, _, rfl⟩ := List.mem_map.mp hv
    exact .inr ⟨i, rfl⟩
  refine ⟨by decide, ?_, ?_⟩
  · intro exact
    have fits := (exact_iff (only [Int64.maxValue, 1, -2]) (by decide)).mp exact
    exact absurd (fits [Int64.maxValue, 1] ⟨[-2], rfl⟩) (by decide)
  · refine (exact_iff (only [1, -2, Int64.maxValue]) (by decide)).mpr ?_
    simp only [integers_map_int, fits_cons_iff, fits_nil_iff]
    decide

end IntegerSum

end EntityQuery
