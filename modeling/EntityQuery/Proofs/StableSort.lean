import EntityQuery.StableSort
import Mathlib.Data.List.Basic

/-!
# Sorting by a comparison

A comparison that is a total preorder of the items (`Orders`) puts them in order
(`pairwise_stableSort`). Two things follow that the fetches and selections rest on: items that the
comparison tells apart have one order, in whatever order they are met (`stableSort_eq_of_perm`), and
sorting some of the items gives the order that they have among all (`filter_stableSort`).

Values of different types have no common order, so `Orders` is asked for only of the items that have
a property. Comparisons are built from parts: by what is read of the items (`Orders.on`), in the
other direction (`Orders.swap`), and one after the other (`Orders.next`).
-/

namespace EntityQuery

variable {α β : Type} {P : α → Prop} {cmp : α → α → Ordering}

/-- The comparison is a total preorder of what has the property. -/
def Orders (P : α → Prop) (cmp : α → α → Ordering) : Prop :=
  Std.TransCmp fun a b : Subtype P => cmp a.1 b.1

namespace Orders

theorem of_transCmp [h : Std.TransCmp cmp] : Orders P cmp where
  eq_swap := h.eq_swap
  isLE_trans := h.isLE_trans

theorem swap (h : Orders P cmp) {a b : α} (ha : P a) (hb : P b) : cmp b a = (cmp a b).swap :=
  @Std.OrientedCmp.eq_swap _ _ h.toOrientedCmp ⟨b, hb⟩ ⟨a, ha⟩

theorem trans (h : Orders P cmp) {a b c : α} (ha : P a) (hb : P b) (hc : P c)
    (hab : (cmp a b).isLE = true) (hbc : (cmp b c).isLE = true) : (cmp a c).isLE = true :=
  @Std.TransCmp.isLE_trans _ _ h ⟨a, ha⟩ ⟨b, hb⟩ ⟨c, hc⟩ hab hbc

theorem isLE_of_not_lt (h : Orders P cmp) {a b : α} (ha : P a) (hb : P b) (hab : cmp a b ≠ .lt) :
    (cmp b a).isLE = true := by
  rw [h.swap ha hb]
  cases hc : cmp a b <;> simp_all

theorem not_lt_of_isLE (h : Orders P cmp) {a b : α} (ha : P a) (hb : P b)
    (hba : (cmp b a).isLE = true) : cmp a b ≠ .lt := by
  rw [h.swap ha hb] at hba
  intro hab
  simp [hab] at hba

theorem eq_of_isLE (h : Orders P cmp) {a b : α} (ha : P a) (hb : P b)
    (hab : (cmp a b).isLE = true) (hba : (cmp b a).isLE = true) : cmp a b = .eq := by
  rw [h.swap ha hb] at hba
  cases hc : cmp a b <;> simp_all

/-- What is compared first decides, and what is compared then decides where it does not. -/
theorem next {cmp' : α → α → Ordering} (h : Orders P cmp) (h' : Orders P cmp') :
    Orders P fun a b => (cmp a b).then (cmp' a b) := by
  have := h
  have := h'
  unfold Orders at *
  exact inferInstanceAs (Std.TransCmp (compareLex (fun a b : Subtype P => cmp a.1 b.1)
    fun a b : Subtype P => cmp' a.1 b.1))

/-- Items are compared as what is read of them is. -/
theorem on {Q : β → Prop} {cmp : β → β → Ordering} (h : Orders Q cmp) (f : α → β)
    (hf : ∀ a, P a → Q (f a)) : Orders P fun a b => cmp (f a) (f b) where
  eq_swap := by
    rintro ⟨a, ha⟩ ⟨b, hb⟩
    exact h.swap (hf b hb) (hf a ha)
  isLE_trans := by
    rintro ⟨a, ha⟩ ⟨b, hb⟩ ⟨c, hc⟩ hab hbc
    exact h.trans (hf a ha) (hf b hb) (hf c hc) hab hbc

end Orders

/-! ## Sorting -/

variable {a : α} {l : List α}

theorem forall_mem_insertBackwards {precedes : α → α → Bool} {Q : α → Prop} (ha : Q a)
    (hl : ∀ b ∈ l, Q b) : ∀ b ∈ insertBackwards precedes a l, Q b := by
  intro b hb
  rcases List.mem_cons.mp ((insertBackwards_perm precedes a l).mem_iff.mp hb) with rfl | hb
  · exact ha
  · exact hl b hb

/-- Items in reverse order stay so when one is moved into them. -/
theorem pairwise_insertBackwards (orders : Orders P cmp) (ha : P a) (hl : ∀ b ∈ l, P b)
    (sorted : l.Pairwise fun b c => (cmp c b).isLE = true) :
    (insertBackwards (fun a b => cmp a b = .lt) a l).Pairwise
      fun b c => (cmp c b).isLE = true := by
  induction l with
  | nil => simp [insertBackwards]
  | cons b l ih =>
    obtain ⟨hb, hl⟩ := List.forall_mem_cons.mp hl
    obtain ⟨hbl, sorted⟩ := List.pairwise_cons.mp sorted
    unfold insertBackwards
    split
    · next hab =>
      refine List.pairwise_cons.mpr ⟨?_, ih hl sorted⟩
      apply forall_mem_insertBackwards
      · simp [of_decide_eq_true hab]
      · exact hbl
    · next hab =>
      have hba : (cmp b a).isLE = true := orders.isLE_of_not_lt ha hb (by simpa using hab)
      refine List.pairwise_cons.mpr ⟨?_, List.pairwise_cons.mpr ⟨hbl, sorted⟩⟩
      intro c hc
      rcases List.mem_cons.mp hc with rfl | hc
      · exact hba
      · exact orders.trans (hl c hc) hb ha (hbl c hc) hba

/-- Moving an item into some of the items is the same as moving it into all of them. -/
theorem filter_insertBackwards (orders : Orders P cmp) (ha : P a) (hl : ∀ b ∈ l, P b)
    (sorted : l.Pairwise fun b c => (cmp c b).isLE = true) (keep : α → Bool) :
    (insertBackwards (fun a b => cmp a b = .lt) a l).filter keep =
      if keep a then insertBackwards (fun a b => cmp a b = .lt) a (l.filter keep)
      else l.filter keep := by
  induction l with
  | nil => cases h : keep a <;> simp [insertBackwards, h]
  | cons b l ih =>
    obtain ⟨hb, hl⟩ := List.forall_mem_cons.mp hl
    obtain ⟨hbl, sorted⟩ := List.pairwise_cons.mp sorted
    have ih := ih hl sorted
    by_cases hab : cmp a b = .lt
    · rw [insertBackwards, if_pos (by simpa using hab), List.filter_cons, ih]
      cases hkb : keep b with
      | false => simp [hkb]
      | true => cases hka : keep a <;> simp [hkb, insertBackwards, hab]
    · rw [insertBackwards, if_neg (by simpa using hab), List.filter_cons]
      cases hka : keep a with
      | false => rfl
      | true =>
        have hba := orders.isLE_of_not_lt ha hb hab
        -- None of the items that are kept comes after the new one.
        have kept : ∀ c ∈ (b :: l).filter keep, cmp a c ≠ .lt := by
          intro c hc
          rcases List.mem_cons.mp (List.mem_of_mem_filter hc) with rfl | hc
          · exact hab
          · exact orders.not_lt_of_isLE ha (hl c hc)
              (orders.trans (hl c hc) hb ha (hbl c hc) hba)
        simp only [if_true]
        cases hf : (b :: l).filter keep with
        | nil => rfl
        | cons c rest =>
          rw [insertBackwards, if_neg]
          simpa using kept c (hf ▸ List.mem_cons_self)

section

variable (orders : Orders P cmp) (hl : ∀ b ∈ l, P b)

include orders hl

theorem pairwise_stableSort :
    (stableSort (fun a b => cmp a b = .lt) l).Pairwise fun a b => (cmp a b).isLE = true := by
  have fold (sorted : List α) (hs : ∀ b ∈ sorted, P b)
      (h : sorted.Pairwise fun b c => (cmp c b).isLE = true) :
      (l.foldl (fun sorted a => insertBackwards (fun a b => cmp a b = .lt) a sorted)
        sorted).Pairwise fun b c => (cmp c b).isLE = true := by
    induction l generalizing sorted with
    | nil => exact h
    | cons a l ih =>
      obtain ⟨ha, hl⟩ := List.forall_mem_cons.mp hl
      exact ih hl _ (forall_mem_insertBackwards ha hs) (pairwise_insertBackwards orders ha hs h)
  exact List.pairwise_reverse.mpr (fold [] (by simp) .nil)

/-- Items that the comparison tells apart have one order, in whatever order they are met. -/
theorem stableSort_eq_of_perm {l' : List α}
    (strict : ∀ a ∈ l, ∀ b ∈ l, cmp a b = .eq → a = b) (perm : l.Perm l') :
    stableSort (fun a b => cmp a b = .lt) l = stableSort (fun a b => cmp a b = .lt) l' := by
  have sorted := stableSort_perm (fun a b => cmp a b = .lt) l
  have sorted' := stableSort_perm (fun a b => cmp a b = .lt) l'
  have hl' : ∀ b ∈ l', P b := fun b hb => hl b (perm.mem_iff.mpr hb)
  refine List.Perm.eq_of_pairwise (fun a b ha hb hab hba => ?_) (pairwise_stableSort orders hl)
    (pairwise_stableSort orders hl') (sorted.trans (perm.trans sorted'.symm))
  have ha := sorted.mem_iff.mp ha
  have hb := perm.mem_iff.mpr (sorted'.mem_iff.mp hb)
  exact strict a ha b hb (orders.eq_of_isLE (hl a ha) (hl b hb) hab hba)

/-- Sorting some of the items gives the order that they have among all. -/
theorem filter_stableSort (keep : α → Bool) :
    (stableSort (fun a b => cmp a b = .lt) l).filter keep =
      stableSort (fun a b => cmp a b = .lt) (l.filter keep) := by
  have fold (sorted : List α) (hs : ∀ b ∈ sorted, P b)
      (h : sorted.Pairwise fun b c => (cmp c b).isLE = true) :
      (l.foldl (fun sorted a => insertBackwards (fun a b => cmp a b = .lt) a sorted)
        sorted).filter keep =
      (l.filter keep).foldl (fun sorted a => insertBackwards (fun a b => cmp a b = .lt) a sorted)
        (sorted.filter keep) := by
    induction l generalizing sorted with
    | nil => rfl
    | cons a l ih =>
      obtain ⟨ha, hl⟩ := List.forall_mem_cons.mp hl
      rw [List.foldl_cons, ih hl _ (forall_mem_insertBackwards ha hs)
        (pairwise_insertBackwards orders ha hs h), filter_insertBackwards orders ha hs h]
      cases hk : keep a <;> simp [hk]
  unfold stableSort
  rw [List.filter_reverse, fold [] (by simp) .nil]
  rfl

end

end EntityQuery
