import EntityQuery.Dataset.Evaluation
import EntityQuery.Proofs.Value.Display
import Mathlib.Data.List.Find

/-!
# Values that are identified

Two values of one type have the same key exactly if they are compared as equal, unless they are
floats (`Alike.key_eq`). So to keep each key once is to keep each value once (`eraseDupsBy_key`),
and **there are as many keys as there are different values** (`Aggregate.apply_countDistinct`).

Keeping each item once is `List.eraseDupsBy`, by whatever the items are compared. That two
comparisons keep the same needs their agreement on the items at hand only (`eraseDupsBy_congr`), and
a fold that leaves out what has been met comes to the same (`foldl_eq_eraseDupsBy`).
-/

namespace EntityQuery

/-! ## Each item once -/

section

variable {α β : Type}

theorem any_congr_of_mem {p q : α → Bool} {l : List α} (h : ∀ a ∈ l, p a = q a) :
    l.any p = l.any q := by
  rw [← List.isSome_find?, ← List.isSome_find?, List.find?_congr h]

/-- To keep each item once it is enough to compare the items with one another. -/
theorem eraseDupsBy_congr {r s : α → α → Bool} {l : List α}
    (h : ∀ a ∈ l, ∀ b ∈ l, r a b = s a b) : l.eraseDupsBy r = l.eraseDupsBy s := by
  induction hn : l.length using Nat.strongRecOn generalizing l with
  | ind n ih =>
    subst hn
    cases l with
    | nil => rfl
    | cons a l =>
      have others : (l.filter fun b => r b a = false) = l.filter fun b => s b a = false :=
        List.filter_congr fun b hb => by
          rw [h b (List.mem_cons_of_mem a hb) a List.mem_cons_self]
      have shorter : (l.filter fun b => s b a = false).length < (a :: l).length :=
        Nat.lt_succ_of_le (List.length_filter_le _ _)
      have inside {b : α} (hb : b ∈ l.filter fun b => s b a = false) : b ∈ a :: l :=
        List.mem_cons_of_mem a (List.mem_filter.mp hb).1
      rw [List.eraseDupsBy_cons, List.eraseDupsBy_cons, others,
        ih _ shorter (fun b hb c hc => h b (inside hb) c (inside hc)) rfl]

/-- Each image once is the images of the items that are kept where images are compared. -/
theorem eraseDups_map [DecidableEq β] (f : α → β) (l : List α) :
    (l.map f).eraseDups = (l.eraseDupsBy fun a b => f a = f b).map f := by
  induction hn : l.length using Nat.strongRecOn generalizing l with
  | ind n ih =>
    subst hn
    cases l with
    | nil => rfl
    | cons a l =>
      have others : (l.map f).filter (fun b => !b == f a) =
          (l.filter fun b => decide (f b = f a) = false).map f := by
        rw [List.filter_map]
        refine congrArg _ (List.filter_congr fun b _ => ?_)
        simp [beq_eq_decide]
      have shorter : (l.filter fun b => decide (f b = f a) = false).length < (a :: l).length :=
        Nat.lt_succ_of_le (List.length_filter_le _ _)
      rw [List.map_cons, List.eraseDups_cons, List.eraseDupsBy_cons, List.map_cons, others,
        ih _ shorter _ rfl]

/-- Going through the items and leaving out those that have been met keeps each item once. -/
theorem foldl_eq_eraseDupsBy {r : α → α → Bool} (symm : ∀ a b, r a b = r b a) (met l : List α) :
    l.foldl (fun met a => if met.any (r · a) then met else met ++ [a]) met =
      met ++ (l.filter fun a => !met.any (r · a)).eraseDupsBy r := by
  induction l generalizing met with
  | nil => simp
  | cons a l ih =>
    rw [List.foldl_cons, ih]
    cases known : met.any (r · a) with
    | true => rw [if_pos rfl, List.filter_cons_of_neg (by simp [known])]
    | false =>
      have later : (l.filter fun b => !(met ++ [a]).any (r · b)) =
          (l.filter fun b => !met.any (r · b)).filter fun b => r b a = false := by
        rw [List.filter_filter]
        refine List.filter_congr fun b _ => ?_
        simp [symm a b, Bool.and_comm]
      rw [if_neg (by simp), later, List.filter_cons_of_pos (by simp [known]),
        List.eraseDupsBy_cons, List.append_assoc]
      rfl

end

/-! ## Keys -/

namespace Value

section

variable {type : ScalarType} {v w : Value}

theorem key_injective (notFloat : type ≠ .float) (hv : v.type? = some type)
    (hw : w.type? = some type) (same : v.key = w.key) : v = w := by
  by_cases whole : type = .integer
  · subst whole
    obtain ⟨i, rfl⟩ := exists_eq_of_type? hv
    obtain ⟨j, rfl⟩ := exists_eq_of_type? hw
    exact congrArg int (wholeKey_injective same)
  · -- What is no number has what is shown for its key.
    have shown {u : Value} (hu : u.type? = some type) : u.key = u.display := by
      cases u with
      | int | float => cases hu; contradiction
      | null | bool | text | date | dateTime | timestamp | uuid => rfl
    exact display_injective notFloat hv hw ((shown hv).symm.trans (same.trans (shown hw)))

theorem compare_self (notFloat : type ≠ .float) (hv : v.type? = some type) :
    v.compare v = some .eq := by
  obtain ⟨_, cmp, _, trans, made, compared⟩ := exists_madeBy notFloat
  obtain ⟨a, rfl⟩ := made v hv
  exact (compared a a).trans (congrArg some Std.ReflCmp.compare_self)

theorem key_eq_iff (notFloat : type ≠ .float) (hv : v.type? = some type)
    (hw : w.type? = some type) : v.key = w.key ↔ v.compare w = some .eq := by
  constructor
  · intro same
    obtain rfl := key_injective notFloat hv hw same
    exact compare_self notFloat hv
  · intro equal
    rw [eq_of_compare_eq notFloat hv hw equal]

end

/-- The values are of one type, and not floats. -/
def Alike (v w : Value) : Prop := ∃ type ∈ v.type?, type ≠ .float ∧ w.type? = some type

instance (v w : Value) : Decidable (v.Alike w) :=
  inferInstanceAs (Decidable (∃ type ∈ v.type?, type ≠ .float ∧ w.type? = some type))

/-- Those of the values that are not null are alike. -/
def AllAlike (vs : List Value) : Prop :=
  ∀ v ∈ vs, ∀ w ∈ vs, v.isNull = false → w.isNull = false → v.Alike w

instance (vs : List Value) : Decidable (AllAlike vs) :=
  inferInstanceAs (Decidable (∀ v ∈ vs, ∀ w ∈ vs, _))

variable {v w : Value} {vs : List Value}

theorem Alike.key_eq (h : v.Alike w) : decide (v.key = w.key) = v.equals w := by
  obtain ⟨type, hv, notFloat, hw⟩ := h
  exact decide_eq_decide.mpr (key_eq_iff notFloat hv hw)

theorem Alike.isNull_right (h : v.Alike w) : w.isNull = false := by
  obtain ⟨type, -, -, hw⟩ := h
  exact isNull_of_type? hw

/-- The values that are not null, of equal ones the first. -/
def distinct (vs : List Value) : List Value := (vs.filter (!·.isNull)).eraseDupsBy equals

/-- Of alike values each is kept once where each key is. -/
theorem eraseDupsBy_key (h : AllAlike vs) :
    (vs.filter (!·.isNull)).eraseDupsBy (fun v w => v.key = w.key) = distinct vs := by
  refine eraseDupsBy_congr fun v hv w hw => ?_
  obtain ⟨hv, someV⟩ := List.mem_filter.mp hv
  obtain ⟨hw, someW⟩ := List.mem_filter.mp hw
  exact (h v hv w hw (by simpa using someV) (by simpa using someW)).key_eq

end Value

/-- Counting keys counts different values. -/
theorem Aggregate.apply_countDistinct {vs : List Value} (h : Value.AllAlike vs) :
    countDistinct.apply vs = .int (Int64.ofNat (Value.distinct vs).length) := by
  show Value.int (Int64.ofNat ((vs.filter (!·.isNull)).map Value.key).eraseDups.length) = _
  rw [eraseDups_map, Value.eraseDupsBy_key h, List.length_map]

end EntityQuery
