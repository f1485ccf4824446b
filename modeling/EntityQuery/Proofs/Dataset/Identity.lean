import EntityQuery.Proofs.Dataset.Filling
import EntityQuery.Proofs.Dataset.Related
import EntityQuery.Proofs.Fetch.Stitching
import EntityQuery.Proofs.Value.Identity

/-!
# Records that are identified

A dataset finds records by the keys of their identifiers, and loading matches owners with records by
keys. **Where the identifiers that meet are of one type, and not floats, this is the same as
comparing the identifiers themselves, as a database would** (`keys_identify`): a record takes the
place of the one with an equal identifier (`rows_insert`), a link leads to the records with equal
identifiers (`relatedTo_eq_tied`, `targetsOf_eq_tied`), and an owner is given the records of an
equal owner (`recordsFor_eq`). Each of the functions that go by keys is restated by equality in a
lemma of its own, for values that are `Alike`.
-/

namespace EntityQuery

open Value (AllAlike)

/-! ## Owners -/

namespace Loading

/-- The keys that are sent are the different values. -/
theorem distinctKeys_eq {vs : List Value} (h : AllAlike vs) :
    distinctKeys vs = Value.distinct vs := by
  have kept := foldl_eq_eraseDupsBy (r := fun v w : Value => v.key = w.key)
    (fun v w => decide_eq_decide.mpr eq_comm) [] (vs.filter (!·.isNull))
  have all : (vs.filter (!·.isNull)).filter (fun v => !([] : List Value).any
      fun w => decide (w.key = v.key)) = vs.filter (!·.isNull) :=
    List.filter_eq_self.mpr fun _ _ => rfl
  rw [all, List.nil_append, Value.eraseDupsBy_key h] at kept
  exact kept

/-- An owner is given the records of an equal owner. -/
theorem recordsFor_eq {related : List Related} {key : Value}
    (h : ∀ x ∈ related, x.ownerKey.Alike key) :
    recordsFor related key = (related.filter (·.ownerKey.equals key)).map (·.record) := by
  have equal : related.filter (·.ownerKey.key = key.key) =
      related.filter (·.ownerKey.equals key) := List.filter_congr fun x hx => (h x hx).key_eq
  unfold recordsFor
  split
  · next null =>
    -- A null is like nothing, so that nothing is related.
    cases related with
    | nil => rfl
    | cons x related => rw [(h x List.mem_cons_self).isNull_right] at null; cases null
  · rw [equal]

end Loading

/-! ## The index -/

/-- In a table whose index is exact a record takes the place of the one of its key. -/
theorem Table.Exact.rows_insert {t : Table} (exact : t.Exact) (r : Record) :
    (t.insert r).rows =
      if t.rows.any (·.key = r.key) then t.rows.map fun o => if o.key = r.key then r else o
      else t.rows ++ [r] := by
  cases found : t.index.at? r.key with
  | none =>
    have fresh : ¬ t.rows.any (·.key = r.key) = true := by
      intro known
      obtain ⟨o, ho, same⟩ := List.any_eq_true.mp known
      obtain ⟨i, hi⟩ := List.mem_iff_getElem?.mp ho
      rw [exact.index_eq_some_iff.mpr ⟨o, hi, of_decide_eq_true same⟩] at found
      cases found
    rw [insert_of_not_at? found, if_neg fresh]
  | some i =>
    obtain ⟨o, ho, same⟩ := exact.index_eq_some_iff.mp found
    have known : t.rows.any (·.key = r.key) = true :=
      List.any_eq_true.mpr ⟨o, List.mem_of_getElem? ho, decide_eq_true same⟩
    rw [insert_of_at? found, if_pos known]
    refine List.ext_getElem? fun j => ?_
    rw [List.getElem?_set, List.getElem?_map]
    -- The key stands at one position only.
    by_cases here : i = j
    · subst here
      have inside := (List.getElem?_eq_some_iff.mp ho).1
      rw [if_pos rfl, if_pos inside, ho, Option.map_some, if_pos same]
    · rw [if_neg here]
      cases hj : t.rows[j]? with
      | none => rfl
      | some p =>
        have apart : p.key ≠ r.key := fun same =>
          here (Option.some.inj (found.symm.trans (exact.index_eq_some_iff.mpr ⟨p, hj, same⟩)))
        rw [Option.map_some, if_neg apart]

namespace Dataset

variable {d : Dataset}

/-- The rows with a record more, or with it in the place of the one of an equal identifier. -/
def replaced (rows : List Record) (r : Record) : List Record :=
  if rows.any (·.id.equals r.id) then rows.map fun o => if o.id.equals r.id then r else o
  else rows ++ [r]

/-- A record takes the place of the one of an equal identifier. -/
theorem rows_insert (filled : d.Filled) {r : Record} (h : ∀ o ∈ d.rows r.entity, o.id.Alike r.id) :
    (d.insert r).rows r.entity = replaced (d.rows r.entity) r.bare := by
  have same {o : Record} (ho : o ∈ d.rows r.entity) :
      decide (o.key = r.bare.key) = o.id.equals r.bare.id := (h o ho).key_eq
  have inserted := (filled.exact r.entity).rows_insert r.bare
  have put : (d.insert r).rows r.entity = ((d.table r.entity).insert r.bare).rows := by
    unfold rows
    rw [table_insert, if_pos rfl]
  rw [put, inserted, replaced]
  refine ite_congr (congrArg (· = true) (any_congr_of_mem fun o ho => same ho))
    (fun _ => List.map_congr_left fun o ho => ?_) fun _ => rfl
  rw [← same ho]
  simp

/-- The record of an identifier is the first row with an equal one. -/
theorem find?_eq_equals (filled : d.Filled) {entity : String} {id : Value}
    (h : ∀ r ∈ d.rows entity, r.id.Alike id) :
    d.find? entity id = (d.rows entity).find? (·.id.equals id) := by
  have found : d.find? entity id = (d.rows entity).find? (·.key = id.key) :=
    (filled.exact entity).find?_eq id.key
  rw [found]
  exact List.find?_congr fun r hr => (h r hr).key_eq

/-! ## Links -/

/-- The records of `target` that the link ties to these identifiers, by equality. -/
def tied (d : Dataset) (target : String) (ids : List Value) : Link → List Related
  | .identity => ((d.rows target).filter (ids.any ·.id.equals)).map fun r => ⟨r.id, r⟩
  | .foreignKey attr _ =>
    (d.rows target).filterMap fun r =>
      if ids.any (r.reference attr).equals then some ⟨r.reference attr, r⟩ else none
  | .joinTable t =>
    (d.linkRows t.table).filterMap fun row => do
      let owner ← row.at? t.ownerColumn
      let id ← row.at? t.targetColumn
      if ids.any owner.equals then
        ((d.rows target).find? (·.id.equals id)).map fun r => ⟨owner, r⟩
      else none

/-- What the link compares is alike. -/
def LinkAlike (d : Dataset) (target : String) (ids : List Value) : Link → Prop
  | .identity => ∀ r ∈ d.rows target, ∀ id ∈ ids, r.id.Alike id
  | .foreignKey attr _ =>
    ∀ r ∈ d.rows target, (r.reference attr).isNull = false →
      ∀ id ∈ ids, (r.reference attr).Alike id
  | .joinTable t =>
    ∀ row ∈ d.linkRows t.table,
      (∀ owner ∈ row.at? t.ownerColumn, ∀ id ∈ ids, owner.Alike id) ∧
      ∀ id ∈ row.at? t.targetColumn, ∀ r ∈ d.rows target, r.id.Alike id

theorem mem_keys_eq {v : Value} {ids : List Value} (h : ∀ id ∈ ids, v.Alike id) :
    decide (v.key ∈ ids.map Value.key) = ids.any v.equals := by
  rw [← any_congr_of_mem fun id hid => (h id hid).key_eq, Bool.eq_iff_iff,
    decide_eq_true_eq, List.any_eq_true, List.mem_map]
  exact exists_congr fun id => and_congr_right fun _ => by rw [decide_eq_true_eq, eq_comm]

/-- What is related to the keys is tied to the identifiers. -/
theorem relatedTo_eq_tied (filled : d.Filled) {target : String} {ids : List Value} {l : Link}
    (h : d.LinkAlike target ids l) :
    d.relatedTo target (ids.map Value.key) l = d.tied target ids l := by
  cases l with
  | identity =>
    refine congrArg _ (List.filter_congr fun r hr => ?_)
    exact mem_keys_eq (h r hr)
  | foreignKey attr column =>
    refine List.filterMap_congr fun r hr => ?_
    cases null : (r.reference attr).isNull with
    | true =>
      have nothing : ids.any (r.reference attr).equals = false := by
        simp [Value.eq_null_of_isNull null, Value.equals]
      rw [if_neg (by simp [null]), nothing]
      rfl
    | false =>
      dsimp only
      rw [mem_keys_eq (h r hr null), null]
      rfl
  | joinTable t =>
    refine List.filterMap_congr fun row hrow => ?_
    obtain ⟨owners, targets⟩ := h row hrow
    unfold linkedTarget?
    cases howner : row.at? t.ownerColumn with
    | none => rfl
    | some owner =>
      have known := mem_keys_eq (owners owner howner)
      simp only [Option.bind_eq_bind, Option.bind_some]
      rw [← known]
      cases hid : row.at? t.targetColumn with
      | none => simp
      | some id =>
        simp only [Option.bind_some, find?_eq_equals filled (targets id hid)]
        cases (d.rows target).find? (·.id.equals id) with
        | none => simp
        | some r => simp

/-- A join leads from a record to what its link ties to it. -/
theorem targetsOf_eq_tied (filled : d.Filled) {target attr : String} {o : Record} {l : Link}
    (h : d.LinkAlike target [Loading.ownerKey attr l o] l) :
    d.targetsOf target attr o l =
      (d.tied target [Loading.ownerKey attr l o] l).map (·.record) := by
  rw [targetsOf_eq (filled.exact target)]
  exact congrArg _ (relatedTo_eq_tied filled h)

/-- **To go by keys is to go by equality.** Two values of one type, not floats, have the same key
exactly if they are compared as equal. So the keys that are sent and the values that are counted are
the different values, an owner is given the records of an equal owner, the index finds and replaces
the record of an equal identifier, and links lead to what they tie to equal identifiers. -/
theorem keys_identify :
    (∀ type ≠ ScalarType.float, ∀ v w : Value, v.type? = some type → w.type? = some type →
      (v.key = w.key ↔ v.compare w = some .eq)) ∧
    (∀ vs, AllAlike vs →
      Loading.distinctKeys vs = Value.distinct vs ∧
      Aggregate.countDistinct.apply vs = .int (Int64.ofNat (Value.distinct vs).length)) ∧
    (∀ (related : List Related) (key : Value), (∀ x ∈ related, x.ownerKey.Alike key) →
      Loading.recordsFor related key = (related.filter (·.ownerKey.equals key)).map (·.record)) ∧
    ∀ d : Dataset, d.Filled →
      (∀ entity id, (∀ r ∈ d.rows entity, r.id.Alike id) →
        d.find? entity id = (d.rows entity).find? (·.id.equals id)) ∧
      (∀ r : Record, (∀ o ∈ d.rows r.entity, o.id.Alike r.id) →
        (d.insert r).rows r.entity = replaced (d.rows r.entity) r.bare) ∧
      (∀ target ids l, d.LinkAlike target ids l →
        d.relatedTo target (ids.map Value.key) l = d.tied target ids l) ∧
      ∀ target attr (o : Record) l, d.LinkAlike target [Loading.ownerKey attr l o] l →
        d.targetsOf target attr o l =
          (d.tied target [Loading.ownerKey attr l o] l).map (·.record) :=
  ⟨fun _ notFloat _ _ hv hw => Value.key_eq_iff notFloat hv hw,
    fun _ alike => ⟨Loading.distinctKeys_eq alike, Aggregate.apply_countDistinct alike⟩,
    fun _ _ alike => Loading.recordsFor_eq alike,
    fun _ filled => ⟨fun _ _ alike => find?_eq_equals filled alike,
      fun _ alike => rows_insert filled alike, fun _ _ _ alike => relatedTo_eq_tied filled alike,
      fun _ _ _ _ alike => targetsOf_eq_tied filled alike⟩⟩

namespace Calendars

/-- In the middle of a leap second. -/
def leap : Value := .dateTime ⟨⟨2016, 12, 31, by decide⟩, ⟨23, 59, 60, 500000000, by decide⟩⟩

/-- The moment after that second. -/
def midnight : Value := .dateTime ⟨⟨2017, 1, 1, by decide⟩, .midnight⟩

def moment (id : Value) : Record := .new "Moment" "id" id

/-- An entry in a calendar keeps the moment for which it was made. -/
def entry (id : Int64) (at_ : Value) : Record :=
  { Record.new "Entry" "id" (.int id) with references := [("moment", at_)] }

def calendar : Dataset :=
  ((((Dataset.empty.insert (moment leap)).insert (moment midnight)).insert
    (entry 1 midnight)).insert (entry 2 leap)).insert (entry 3 .null)

def kept : Link := .foreignKey "moment" "moment_id"

end Calendars

open Calendars in
theorem keys_identify_calendar :
    leap.key ≠ midnight.key ∧
    Loading.distinctKeys [leap, .null, midnight, leap] = [leap, midnight] ∧
    Loading.recordsFor [⟨midnight, entry 1 midnight⟩, ⟨leap, entry 2 leap⟩] leap =
      [entry 2 leap] ∧
    calendar.find? "Moment" midnight = some (moment midnight) ∧
    (calendar.insert (moment leap)).rows "Moment" = [moment leap, moment midnight] ∧
    calendar.relatedTo "Entry" [leap.key] kept = [⟨leap, entry 2 leap⟩] ∧
    calendar.targetsOf "Entry" "entries" (moment leap) kept = [entry 2 leap] := by
  have filled : calendar.Filled :=
    ((((Filled.empty.insert _).insert _).insert _).insert _).insert _
  have alike : AllAlike [leap, .null, midnight, leap] := by decide +kernel
  have moments (id : Value) (h : leap.Alike id ∧ midnight.Alike id) :
      ∀ r ∈ calendar.rows "Moment", r.id.Alike id :=
    List.forall_mem_cons.mpr ⟨h.1, List.forall_mem_singleton.mpr h.2⟩
  have entries : calendar.LinkAlike "Entry" [leap] kept := by
    show ∀ r ∈ calendar.rows "Entry", _ → ∀ id ∈ [leap], (r.reference "moment").Alike id
    decide +kernel
  have owned : ∀ x ∈ [(⟨midnight, entry 1 midnight⟩ : Related), ⟨leap, entry 2 leap⟩],
      x.ownerKey.Alike leap := by decide +kernel
  obtain ⟨keys, values, owners, datasets⟩ := keys_identify
  obtain ⟨finds, replaces, relates, leads⟩ := datasets calendar filled
  have apart : ¬ leap.compare midnight = some .eq := by decide +kernel
  exact ⟨fun same => apart ((keys .dateTime (by decide) leap midnight rfl rfl).mp same),
    (values _ alike).1.trans rfl, (owners _ leap owned).trans rfl,
    (finds "Moment" midnight (moments midnight (by decide +kernel))).trans rfl,
    (replaces (moment leap) (moments leap (by decide +kernel))).trans rfl,
    (relates "Entry" [leap] kept entries).trans rfl,
    (leads "Entry" "entries" (moment leap) kept entries).trans rfl⟩

end Dataset

end EntityQuery
