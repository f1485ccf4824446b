import EntityQuery.Proofs.Dataset.BothSides
import EntityQuery.Proofs.Schema.JoinTables

/-!
# Links put in and read

Tying two records of a many-to-many association puts a row into the table between them, with the
identifier of each in its column, and asking for what is related to an owner reads the rows back.
**As long as the columns have different names, what has been put in is what is read**
(`links_put_in_are_read`). Where they have the same name, a row keeps only the identifier that was
given last (`row_at?_of_eq`), so that a record is given to itself and links are lost
(`links_lost_friends`).

`Linked` is how the dataset has been filled, by calls from either end (`Tie`); the table has one row
for each call (`Linked.linkRows`), and reading goes through the calls in turn
(`Linked.map_relatedTo`).
-/

namespace EntityQuery

namespace Schema

/-- The association `back` of the target and the other one are the two ends of a many-to-many
association, one of which is declared to lead back along the other. -/
def TwoEnded (s : Schema) (owner attr target back : String) : Prop :=
  ∃ r r' t, (s.MappedBy owner attr r back r' t ∧ r.target = target) ∨
    (s.MappedBy target back r' attr r t ∧ r'.target = owner)

theorem TwoEnded.joinTable_back {s : Schema} {owner attr target back : String}
    (ends : s.TwoEnded owner attr target back) {t : JoinTable}
    (table : s.joinTable owner attr = .ok t) : s.joinTable target back = .ok t.flipped := by
  obtain ⟨r, r', t', ⟨mapped, rfl⟩ | ⟨mapped, rfl⟩⟩ := ends
  · cases table.symm.trans mapped.joinTable
    exact mapped.joinTable_back
  · cases table.symm.trans mapped.joinTable_back
    exact mapped.joinTable

end Schema

namespace Dataset

/-- A call that ties two records, with their identifiers as seen from the owner of the
association. -/
structure Tie where
  owner : Value
  target : Value
  /-- Whether the call is made from the side of the target. -/
  fromTarget : Bool

namespace Tie

/-- The identifier that is given last. -/
def last (x : Tie) : Value := if x.fromTarget then x.owner else x.target

/-- The row that the call puts into the table. -/
def row (t : JoinTable) (x : Tie) : Directory Value :=
  if x.fromTarget then (Directory.put [] t.targetColumn x.target).put t.ownerColumn x.owner
  else (Directory.put [] t.ownerColumn x.owner).put t.targetColumn x.target

variable {t : JoinTable} {x : Tie}

theorem row_at?_of_ne (apart : t.ownerColumn ≠ t.targetColumn) :
    (x.row t).at? t.ownerColumn = some x.owner ∧ (x.row t).at? t.targetColumn = some x.target := by
  unfold row
  split
  · rw [Directory.at?_put_self, Directory.at?_put_of_ne apart.symm, Directory.at?_put_self]
    exact ⟨rfl, rfl⟩
  · rw [Directory.at?_put_self, Directory.at?_put_of_ne apart, Directory.at?_put_self]
    exact ⟨rfl, rfl⟩

/-- Where the columns have the same name, the second identifier takes the place of the first. -/
theorem row_at?_of_eq (same : t.ownerColumn = t.targetColumn) :
    (x.row t).at? t.ownerColumn = some x.last ∧ (x.row t).at? t.targetColumn = some x.last := by
  unfold row last
  rw [same]
  split <;> exact ⟨Directory.at?_put_self .., Directory.at?_put_self ..⟩

end Tie

/-- The dataset has been filled by putting in records and by tying records of one many-to-many
association, from either end, with these calls in turn. -/
inductive Linked (s : Schema) (owner attr target : String) : List Tie → Dataset → Prop
  | empty : Linked s owner attr target [] .empty
  | insert {ties : List Tie} {d : Dataset} (before : Linked s owner attr target ties d)
      (r : Record) : Linked s owner attr target ties (d.insert r)
  | link {ties : List Tie} {d d' : Dataset} {o c : Value}
      (before : Linked s owner attr target ties d) (done : d.link s owner attr o c = .ok d') :
      Linked s owner attr target (ties ++ [⟨o, c, false⟩]) d'
  | linkBack {ties : List Tie} {d d' : Dataset} {o c : Value} {back : String}
      (before : Linked s owner attr target ties d) (ends : s.TwoEnded owner attr target back)
      (done : d.link s target back c o = .ok d') :
      Linked s owner attr target (ties ++ [⟨o, c, true⟩]) d'

variable {s : Schema} {owner attr target : String} {ties : List Tie} {d d' : Dataset}
  {t : JoinTable}

theorem linkRows_link {o c : Value} (table : s.joinTable owner attr = .ok t)
    (done : d.link s owner attr o c = .ok d') :
    d'.linkRows t.table =
      d.linkRows t.table ++ [(Directory.put [] t.ownerColumn o).put t.targetColumn c] := by
  obtain ⟨t', table', done⟩ := bind_eq_ok.mp done
  cases table.symm.trans table'
  cases done
  unfold linkRows Directory.update
  dsimp only
  rw [Directory.at?_put_self]
  rfl

/-- The table has one row for each call. -/
theorem Linked.linkRows (linked : Linked s owner attr target ties d)
    (table : s.joinTable owner attr = .ok t) : d.linkRows t.table = ties.map (Tie.row t) := by
  induction linked with
  | empty => rfl
  | insert _ r ih => exact ih
  | link _ done ih =>
    rw [linkRows_link table done, ih, List.map_append]
    rfl
  | linkBack _ ends done ih =>
    have rows := linkRows_link (ends.joinTable_back table) done
    rw [List.map_append, ← ih]
    exact rows

/-- What is read for a key goes through the calls in turn. -/
theorem Linked.map_relatedTo (linked : Linked s owner attr target ties d)
    (table : s.joinTable owner attr = .ok t) {key other : Tie → Value}
    (hkey : ∀ x : Tie, (x.row t).at? t.ownerColumn = some (key x))
    (hother : ∀ x : Tie, (x.row t).at? t.targetColumn = some (other x)) (k : String) :
    (d.relatedTo target [k] (.joinTable t)).map (·.record) =
      ties.filterMap fun x => if (key x).key = k then d.find? target (other x) else none := by
  unfold relatedTo
  dsimp only
  rw [linked.linkRows table, List.filterMap_map, List.map_filterMap]
  refine List.filterMap_congr fun x _ => ?_
  simp only [Function.comp_apply, linkedTarget?, hkey, hother, Option.bind_eq_bind,
    Option.bind_some, List.mem_singleton]
  split
  · cases d.find? target (other x) <;> rfl
  · rfl

/-- **Links are read as they have been put in, if the columns have different names.** An owner is
then given the targets that it has been tied to, each as often as it has been. Where the columns
have the same name, that is where the table of the entity that names them is called like the other
entity in lower case, a record is given to itself, as often as its identifier has been given last.
-/
theorem links_put_in_are_read {declarations : List EntityDeclaration}
    (declared : Schema.declare declarations = .ok s)
    (plain : ∀ x ∈ declarations, x.NamesNoTable) {r : Association}
    (association : s.association owner attr = .ok r) (table : s.joinTable owner attr = .ok t)
    (linked : Linked s owner attr r.target ties d) :
    s.link owner attr = .ok (.joinTable t) ∧
    (∃ e, s.entity (r.ends owner).1 = .ok e ∧ (t.ownerColumn = t.targetColumn ↔
      e.table = String.ofList (Text.asciiLower (r.ends owner).2.toList))) ∧
    ∀ k : Value, ∃ related,
      d.fetchRelated s (Loading.batch owner attr r (.joinTable t) [k]) = .ok related ∧
      (t.ownerColumn ≠ t.targetColumn → (related.map (·.record)).Perm
        (ties.filterMap fun x =>
          if x.owner.key = k.key then d.find? r.target x.target else none)) ∧
      (t.ownerColumn = t.targetColumn → (related.map (·.record)).Perm
        (ties.filterMap fun x =>
          if x.last.key = k.key then d.find? r.target x.last else none)) := by
  have closed := Schema.closed_of_declare declared
  have standard := Schema.standard_of_declare plain declared
  refine ⟨Schema.link_of_joinTable table, Schema.columns_eq_iff standard association table, ?_⟩
  intro k
  refine ⟨_, fetchRelated_batch (closed.succeeds_target association) _, ?_, ?_⟩ <;> intro columns
  · have read := linked.map_relatedTo table (fun x => (x.row_at?_of_ne columns).1)
      (fun x => (x.row_at?_of_ne columns).2) k.key
    exact ((answer_perm ..).map _).trans (.of_eq read)
  · have read := linked.map_relatedTo table (fun x => (x.row_at?_of_eq columns).1)
      (fun x => (x.row_at?_of_eq columns).2) k.key
    exact ((answer_perm ..).map _).trans (.of_eq read)

namespace Clubs

/-- The person is a member of the club, which has been said once or from either end. -/
def once : Dataset :=
  { people with links := [("person_clubs", [[("person_id", .int 1), ("club_id", .int 7)]])] }

def twice : Dataset :=
  { people with links := [("person_clubs", [[("person_id", .int 1), ("club_id", .int 7)],
      [("club_id", .int 7), ("person_id", .int 1)]])] }

end Clubs

open Clubs in
/-- The club is read as often as it has been tied to the person. -/
theorem links_put_in_are_read_clubs :
    people.link schema "Person" "clubs" (.int 1) (.int 7) = .ok once ∧
    once.link schema "Club" "members" (.int 7) (.int 1) = .ok twice ∧
    ∃ related, twice.fetchRelated schema
        (Loading.batch "Person" "clubs" clubs (.joinTable membership) [.int 1]) = .ok related ∧
      (related.map (·.record)).Perm [club, club] := by
  have first : people.link schema "Person" "clubs" (.int 1) (.int 7) = .ok once := rfl
  have second : once.link schema "Club" "members" (.int 7) (.int 1) = .ok twice := rfl
  have ends : schema.TwoEnded "Person" "clubs" "Club" "members" := ⟨_, _, _, .inl ⟨mapped, rfl⟩⟩
  have plain : ∀ x ∈ entities, x.NamesNoTable := by
    simp [entities, EntityDeclaration.NamesNoTable]
  have linked : Linked schema "Person" "clubs" "Club" _ twice :=
    .linkBack (.link (.insert (.insert .empty person) club) first) ends second
  obtain ⟨-, -, read⟩ := links_put_in_are_read declared plain rfl mapped.joinTable linked
  obtain ⟨related, asked, apart, -⟩ := read (.int 1)
  exact ⟨first, second, related, asked, apart (by decide)⟩

namespace Friends

/-- People have friends, who are people. -/
def entities : List EntityDeclaration :=
  [⟨"Person", "person", [.id "id" .integer, .association "friends" .manyToMany "Person"]⟩]

def friendship : JoinTable := ⟨"person_friends", "person_id", "person_id"⟩

def friends : Association := ⟨.manyToMany, "Person", none, true, none, some friendship⟩

def schema : Schema :=
  ⟨[⟨"Person", "person", "id", [⟨"id", "id", false, .scalar .integer⟩,
      ⟨"friends", "friends", true, .association friends⟩]⟩]⟩

def person (id : Value) : Record := .new "Person" "id" id

def people : Dataset := (Dataset.empty.insert (person (.int 1))).insert (person (.int 2))

end Friends

open Friends in
/-- The first person is tied to the second, but has no friends afterwards; the second is a friend of
its own. -/
theorem links_lost_friends :
    Schema.declare entities = .ok schema ∧ (∀ x ∈ entities, x.NamesNoTable) ∧
    ∃ d, people.link schema "Person" "friends" (.int 1) (.int 2) = .ok d ∧
      d.fetchRelated schema (Loading.batch "Person" "friends" friends (.joinTable friendship)
        [.int 1]) = .ok [] ∧
      d.fetchRelated schema (Loading.batch "Person" "friends" friends (.joinTable friendship)
        [.int 2]) = .ok [⟨.int 2, person (.int 2)⟩] := by
  refine ⟨by rfl, ?_, _, rfl, rfl, rfl⟩
  simp [entities, EntityDeclaration.NamesNoTable]

end Dataset

end EntityQuery
