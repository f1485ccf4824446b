import EntityQuery.Proofs.Fetch.Stitching
import EntityQuery.Proofs.Schema.BackReferences

/-!
# Both sides of an association

**A record is among those that an association leads to from another one exactly if the association
that leads back finds the other one from it** (`both_sides_agree`, `SidesAgree`). The two are
answered in different ways: by going through the rows of the target for the identifier that they
keep (`mem_relatedTo_foreignKey`), by going through the rows of the owner for their own
(`mem_relatedTo_identity`), or by going through the rows of the table between the two, read one way
or the other (`mem_relatedTo_joinTable`, `Tied`).

That links which are told from either end find the same pairs of records (`mem_relatedTo_reverses`)
is a matter of the dataset; that the two ends of an association have such links is one of the
schema.
-/

namespace EntityQuery

namespace Dataset

variable {d : Dataset} {target back : String} {o c : Record}

theorem mem_relatedTo_identity {key : String} :
    o ∈ (d.relatedTo target [key] .identity).map (·.record) ↔ o ∈ d.rows target ∧ o.key = key := by
  simp [relatedTo, List.map_map, Function.comp_def]

theorem mem_relatedTo_foreignKey {key column : String} :
    c ∈ (d.relatedTo target [key] (.foreignKey back column)).map (·.record) ↔
      c ∈ d.rows target ∧ (c.reference back).isNull = false ∧ (c.reference back).key = key := by
  have chosen (r : Record) (x : Related) :
      (if !(r.reference back).isNull && (r.reference back).key ∈ [key] then
        some (⟨r.reference back, r⟩ : Related) else none) = some x ↔
      ((r.reference back).isNull = false ∧ (r.reference back).key = key) ∧
        ⟨r.reference back, r⟩ = x := by
    simp
  unfold relatedTo
  simp only [List.mem_map, List.mem_filterMap, chosen]
  constructor
  · rintro ⟨_, ⟨r, hr, fits, rfl⟩, rfl⟩
    exact ⟨hr, fits⟩
  · rintro ⟨hr, fits⟩
    exact ⟨_, ⟨c, hr, fits, rfl⟩, rfl⟩

/-- A table between two entities has a row for the two records. -/
def Tied (d : Dataset) (t : JoinTable) (o c : Record) : Prop :=
  ∃ row ∈ d.linkRows t.table, ∃ v w, row.at? t.ownerColumn = some v ∧ v.key = o.key ∧
    row.at? t.targetColumn = some w ∧ w.key = c.key

theorem tied_flipped {t : JoinTable} : d.Tied t.flipped c o ↔ d.Tied t o c := by
  unfold Tied JoinTable.flipped
  refine exists_congr fun row => and_congr_right fun _ => ?_
  rw [exists_comm]
  refine exists_congr fun v => exists_congr fun w => ?_
  tauto

theorem mem_relatedTo_joinTable (exact : (d.table target).Exact) (hc : c ∈ d.rows target)
    {t : JoinTable} :
    c ∈ (d.relatedTo target [o.key] (.joinTable t)).map (·.record) ↔ d.Tied t o c := by
  unfold relatedTo Tied
  simp only [List.mem_map, List.mem_filterMap, linkedTarget?_eq_some_iff, List.mem_singleton]
  constructor
  · rintro ⟨⟨v, _⟩, ⟨row, hrow, hv, key, w, hw, found⟩, rfl⟩
    exact ⟨row, hrow, v, w, hv, key, hw, (exact.find?_eq_some_iff.mp found).2.symm⟩
  · rintro ⟨row, hrow, v, w, hv, key, hw, same⟩
    exact ⟨⟨v, c⟩, ⟨row, hrow, hv, key, w, hw, exact.find?_eq_some_iff.mpr ⟨hc, same.symm⟩⟩, rfl⟩

/-- Links that are told from either end find the same pairs of records. -/
theorem mem_relatedTo_reverses (exact : ∀ entity, (d.table entity).Exact) {l l' : Link}
    (reverses : l.Reverses back l') {owner : String} (ho : o ∈ d.rows owner)
    (hc : c ∈ d.rows target) (notNull : c.id.isNull = false) :
    c ∈ (d.relatedTo target [o.key] l).map (·.record) ↔
      (Loading.ownerKey back l' c).isNull = false ∧
        o ∈ (d.relatedTo owner [(Loading.ownerKey back l' c).key] l').map (·.record) := by
  cases reverses with
  | identity column =>
    rw [mem_relatedTo_foreignKey, mem_relatedTo_identity, and_iff_right hc, and_iff_right ho,
      eq_comm (a := o.key)]
    rfl
  | joinTable t =>
    rw [mem_relatedTo_joinTable (exact target) hc, ← tied_flipped,
      ← mem_relatedTo_joinTable (exact owner) ho]
    exact (and_iff_right notNull).symm

/-- Both ends of an association can be asked, and tell the same of an owner and a target: the target
is among what is related to the owner exactly if it has a key for the association that leads back
and the owner is among what is related to that. -/
def SidesAgree (d : Dataset) (s : Schema) (owner attr : String) (r : Association) (back : String)
    (o c : Record) : Prop :=
  ∃ l r' l' related related', s.association owner attr = .ok r ∧ s.link owner attr = .ok l ∧
    s.association r.target back = .ok r' ∧ s.link r.target back = .ok l' ∧
    d.fetchRelated s (Loading.batch owner attr r l [o.id]) = .ok related ∧
    d.fetchRelated s (Loading.batch r.target back r' l' [Loading.ownerKey back l' c]) =
      .ok related' ∧
    (c ∈ related.map (·.record) ↔
      (Loading.ownerKey back l' c).isNull = false ∧ o ∈ related'.map (·.record))

/-- **The two ends of an association tell the same**, however a dataset has been filled. -/
theorem both_sides_agree {declarations : List EntityDeclaration} {s : Schema}
    (declared : Schema.declare declarations = .ok s) (filled : d.Filled) {owner attr : String}
    {r : Association} (leads : s.LeadsBack owner attr r back) (ho : o ∈ d.rows owner)
    (hc : c ∈ d.rows r.target) (notNull : c.id.isNull = false) :
    d.SidesAgree s owner attr r back o c := by
  obtain ⟨l, r', l', association, linked, association', target, linked', reverses⟩ :=
    leads.reverses (Schema.distinct_of_declare declared)
  have closed := Schema.closed_of_declare declared
  refine ⟨l, r', l', _, _, association, linked, association', linked',
    fetchRelated_batch (closed.succeeds_target association) _,
    fetchRelated_batch (closed.succeeds_target association') _, ?_⟩
  rw [((answer_perm ..).map _).mem_iff, ((answer_perm ..).map _).mem_iff, target]
  exact mem_relatedTo_reverses filled.exact reverses ho hc notNull

namespace Clubs

/-- People are members of clubs and chair some of them. -/
def entities : List EntityDeclaration :=
  [⟨"Person", "person", [.id "id" .integer, .association "clubs" .manyToMany "Club",
      .association "chaired" .oneToMany "Club"]⟩,
    ⟨"Club", "club", [.id "id" .integer, .association "members" .manyToMany "Person",
      .mappedBy "clubs", .association "chair" .manyToOne "Person"]⟩]

def membership : JoinTable := ⟨"person_clubs", "person_id", "club_id"⟩

def clubs : Association := ⟨.manyToMany, "Club", none, true, none, some membership⟩

def members : Association := ⟨.manyToMany, "Person", some "clubs", false, none, none⟩

def chaired : Association := ⟨.oneToMany, "Club", none, false, none, none⟩

def schema : Schema :=
  ⟨[⟨"Person", "person", "id", [⟨"id", "id", false, .scalar .integer⟩,
      ⟨"clubs", "clubs", true, .association clubs⟩,
      ⟨"chaired", "chaired", true, .association chaired⟩]⟩,
    ⟨"Club", "club", "id", [⟨"id", "id", false, .scalar .integer⟩,
      ⟨"members", "members", true, .association members⟩,
      ⟨"chair", "chair_id", true,
        .association ⟨.manyToOne, "Person", none, true, some "chair_id", none⟩⟩]⟩]⟩

theorem declared : Schema.declare entities = .ok schema := by rfl

theorem mapped : schema.MappedBy "Person" "clubs" clubs "members" members membership :=
  ⟨rfl, rfl, rfl, rfl, rfl, rfl, rfl, rfl⟩

def person : Record := .new "Person" "id" (.int 1)

def club : Record := { Record.new "Club" "id" (.int 7) with references := [("chair", .int 1)] }

/-- A person and a club that the person chairs. -/
def people : Dataset := (Dataset.empty.insert person).insert club

end Clubs

open Clubs in
/-- The one person is a member of the one club, and chairs it. -/
theorem both_sides_agree_clubs : ∃ d,
    people.link schema "Person" "clubs" (.int 1) (.int 7) = .ok d ∧
    d.SidesAgree schema "Person" "clubs" clubs "members" person club ∧
    d.SidesAgree schema "Person" "chaired" chaired "chair" person club := by
  have filled : people.Filled := (Filled.empty.insert _).insert _
  have linked : people.link schema "Person" "clubs" (.int 1) (.int 7) = .ok _ := rfl
  refine ⟨_, linked, ?_, ?_⟩
  · exact both_sides_agree declared (filled.link linked) (.table mapped)
      (List.mem_singleton_self _) (List.mem_singleton_self _) rfl
  · exact both_sides_agree declared (filled.link linked) (.column rfl rfl)
      (List.mem_singleton_self _) (List.mem_singleton_self _) rfl

end Dataset

end EntityQuery
