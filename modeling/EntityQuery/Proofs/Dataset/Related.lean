import EntityQuery.Dataset.Store
import EntityQuery.Fetch.Loading
import EntityQuery.Proofs.Dataset.Index
import EntityQuery.Proofs.Value.Order

/-!
# The answer to a related query

**What is related to a batch of keys falls apart into what is related to each of the keys alone**
(`filter_relatedTo`), and sorting the whole sorts each of the parts (`filter_answer`). Where the
index of the target is exact, the part of one owner is what its link leads to in evaluation
(`targetsOf_eq`).
-/

namespace EntityQuery

theorem Dataset.mem_rows_of_find? {d : Dataset} {target : String} {id : Value} {r : Record}
    (h : d.find? target id = some r) : r ∈ d.rows target := by
  obtain ⟨i, _, hi⟩ := Option.bind_eq_some_iff.mp h
  exact List.mem_of_getElem? hi

namespace Dataset

variable {d : Dataset} {target : String} {keys : List String}

theorem linkedTarget?_eq_some_iff {t : JoinTable} {row : Directory Value} {x : Related} :
    d.linkedTarget? target t keys row = some x ↔
      row.at? t.ownerColumn = some x.ownerKey ∧ x.ownerKey.key ∈ keys ∧
        ∃ id, row.at? t.targetColumn = some id ∧ d.find? target id = some x.record := by
  obtain ⟨ownerKey, record⟩ := x
  unfold linkedTarget?
  simp only [Option.bind_eq_bind, Option.bind_eq_some_iff]
  constructor
  · rintro ⟨owner, howner, h⟩
    split at h
    · next hmem =>
      obtain ⟨id, hid, h⟩ := Option.bind_eq_some_iff.mp h
      obtain ⟨_, hfind, h⟩ := Option.bind_eq_some_iff.mp h
      cases h
      exact ⟨howner, hmem, id, hid, hfind⟩
    · cases h
  · rintro ⟨howner, hmem, id, hid, hfind⟩
    refine ⟨ownerKey, howner, ?_⟩
    rw [if_pos hmem]
    simp [hid, hfind]

/-- Every related record is a row of the target and belongs to one of the keys. -/
theorem mem_relatedTo {l : Link} {x : Related} (h : x ∈ d.relatedTo target keys l) :
    x.record ∈ d.rows target ∧ x.ownerKey.key ∈ keys := by
  cases l with
  | identity =>
    obtain ⟨r, hr, rfl⟩ := List.mem_map.mp h
    obtain ⟨hr, hkey⟩ := List.mem_filter.mp hr
    exact ⟨hr, of_decide_eq_true hkey⟩
  | foreignKey attr column =>
    obtain ⟨r, hr, hx⟩ := List.mem_filterMap.mp h
    dsimp only at hx
    split at hx
    · next hkey =>
      cases hx
      simp only [Bool.and_eq_true, decide_eq_true_eq] at hkey
      exact ⟨hr, hkey.2⟩
    · cases hx
  | joinTable t =>
    obtain ⟨row, _, hx⟩ := List.mem_filterMap.mp h
    obtain ⟨_, hkey, id, _, hfind⟩ := linkedTarget?_eq_some_iff.mp hx
    exact ⟨mem_rows_of_find? hfind, hkey⟩

/-- The part of an answer that belongs to one of the keys is the answer for this key alone. -/
theorem filter_relatedTo {key : String} (hkey : key ∈ keys) (l : Link) :
    (d.relatedTo target keys l).filter (·.ownerKey.key = key) = d.relatedTo target [key] l := by
  cases l with
  | identity =>
    unfold relatedTo
    rw [List.filter_map, List.filter_filter]
    refine congrArg _ (List.filter_congr fun r _ => ?_)
    have hid : r.id.key = r.key := rfl
    by_cases h : r.key = key
    · simp [hid, h, hkey]
    · simp [hid, h]
  | foreignKey attr column =>
    unfold relatedTo
    rw [List.filter_filterMap]
    refine List.filterMap_congr fun r _ => ?_
    by_cases h : (r.reference attr).key = key
    · simp only [h, hkey, List.mem_singleton, decide_true, Bool.and_true]
      split <;> simp [h]
    · simp only [h, List.mem_singleton, decide_false, Bool.and_false]
      split <;> simp [h]
  | joinTable t =>
    unfold relatedTo
    rw [List.filter_filterMap]
    refine List.filterMap_congr fun row _ => Option.ext fun x => ?_
    show Option.filter _ _ = some x ↔ d.linkedTarget? target t [key] row = some x
    rw [Option.filter_eq_some_iff, linkedTarget?_eq_some_iff, linkedTarget?_eq_some_iff,
      List.mem_singleton, decide_eq_true_eq]
    constructor
    · rintro ⟨⟨howner, _, hfind⟩, h⟩
      exact ⟨howner, h, hfind⟩
    · rintro ⟨howner, h, hfind⟩
      exact ⟨⟨howner, h ▸ hkey, hfind⟩, h⟩

/-- What the link of an owner leads to in evaluation is what is related to its key. -/
theorem targetsOf_eq (exact : (d.table target).Exact) (attr : String) (l : Link) (o : Record) :
    d.targetsOf target attr o l =
      (d.relatedTo target [(Loading.ownerKey attr l o).key] l).map (·.record) := by
  cases l with
  | identity =>
    have found := exact.filter_rows (o.reference attr).key
    show (d.find? target (o.reference attr)).toList = _
    rw [relatedTo, List.map_map]
    simp only [Loading.ownerKey, List.mem_singleton]
    exact found.symm.trans (List.map_id' _).symm
  | foreignKey => rfl
  | joinTable => rfl

/-! ## In order -/

/-- The records related to these keys, in the order of their identifiers. -/
def answer (d : Dataset) (target : String) (keys : List String) (l : Link) : List Related :=
  stableSort (fun a b => compareRelated [] a b = .lt) (d.relatedTo target keys l)

theorem answer_perm (d : Dataset) (target : String) (keys : List String) (l : Link) :
    (d.answer target keys l).Perm (d.relatedTo target keys l) := stableSort_perm ..

section

variable {type : ScalarType} (notFloat : type ≠ .float)

include notFloat

theorem orders_compareRelated :
    Orders (fun x : Related => x.record.id.type? = some type) (compareRelated []) := by
  have byId : Orders (fun x : Related => x.record.id.type? = some type)
      fun a b => (a.record.id.compare b.record.id).getD .eq :=
    (Value.orders_compare notFloat).on (fun x : Related => x.record.id) fun _ h => h
  have byOwner : Orders (fun x : Related => x.record.id.type? = some type)
      fun a b => compare a.ownerKey.key b.ownerKey.key :=
    (Orders.of_transCmp : Orders (fun _ : String => True) compare).on
      (fun x : Related => x.ownerKey.key) fun _ _ => trivial
  exact byId.next byOwner

variable (typed : ∀ r ∈ d.rows target, r.id.type? = some type)

include typed

/-- The part of a whole answer that belongs to one of the keys is the answer for this key alone. -/
theorem filter_answer {key : String} (hkey : key ∈ keys) (l : Link) :
    (d.answer target keys l).filter (·.ownerKey.key = key) = d.answer target [key] l := by
  unfold answer
  rw [filter_stableSort (orders_compareRelated notFloat) fun x hx => typed _ (mem_relatedTo hx).1,
    filter_relatedTo hkey]

/-- The records of an answer come in the order of their identifiers. -/
theorem pairwise_answer (l : Link) :
    ((d.answer target keys l).map (·.record)).Pairwise
      fun a b => ∃ o, a.id.compare b.id = some o ∧ o.isLE := by
  refine List.pairwise_map.mpr ?_
  have ids : ∀ x ∈ d.relatedTo target keys l, x.record.id.type? = some type :=
    fun x hx => typed _ (mem_relatedTo hx).1
  refine (pairwise_stableSort (orders_compareRelated notFloat) ids).imp_of_mem ?_
  intro a b ha hb hab
  have ha := ids a ((answer_perm ..).mem_iff.mp ha)
  have hb := ids b ((answer_perm ..).mem_iff.mp hb)
  obtain ⟨o, ho⟩ := Value.exists_compare_eq_some notFloat ha hb
  refine ⟨o, ho, ?_⟩
  unfold compareRelated compareRecords at hab
  rw [ho] at hab
  cases o <;> simp_all

end

end Dataset

end EntityQuery
