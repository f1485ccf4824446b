import EntityQuery.Proofs.Dataset.Related
import EntityQuery.Proofs.Fetch.Loading
import EntityQuery.Proofs.Schema.Lookup

/-!
# Stitching

A join fetch asks for the targets of all owners at once and gives each owner its share of the
answer. **The share of an owner is what the association leads to when a filter is evaluated,
whatever other owners there are** (`joined_stitches`): nothing is attached to another owner, lost or
repeated.

The keys that are sent are those of the owners, without null (`mem_keys_distinctKeys_iff`), so an
owner whose key has been sent is given what belongs to it (`share_answer`); and what belongs to it
is what evaluation goes to from its row (`children_eq`). `Stitched` says this of one owner after the
fetch.
-/

namespace EntityQuery

/-! ## The keys that are sent -/

namespace Loading

/-- The keys with one more value, unless its key is among them. -/
def send (keys : List Value) (v : Value) : List Value :=
  if keys.any (·.key = v.key) then keys else keys ++ [v]

theorem mem_keys_send_iff {keys : List Value} {v : Value} {key : String} :
    key ∈ (send keys v).map Value.key ↔ key ∈ keys.map Value.key ∨ key = v.key := by
  unfold send
  split
  · next known =>
    obtain ⟨k, hk, same⟩ := List.any_eq_true.mp known
    have there : v.key ∈ keys.map Value.key :=
      List.mem_map.mpr ⟨k, hk, of_decide_eq_true same⟩
    constructor
    · exact .inl
    · rintro (h | rfl)
      · exact h
      · exact there
  · rw [List.map_append, List.map_singleton, List.mem_append, List.mem_singleton]

theorem mem_keys_foldl_send_iff {values keys : List Value} {key : String} :
    key ∈ (values.foldl send keys).map Value.key ↔
      key ∈ keys.map Value.key ∨ key ∈ values.map Value.key := by
  induction values generalizing keys with
  | nil => simp
  | cons v values ih =>
    rw [List.foldl_cons, ih, mem_keys_send_iff, List.map_cons, List.mem_cons, or_assoc]

/-- The keys that are sent are those of the values that are not null. -/
theorem mem_keys_distinctKeys_iff {values : List Value} {key : String} :
    key ∈ (distinctKeys values).map Value.key ↔
      ∃ v ∈ values, v.isNull = false ∧ v.key = key := by
  have sent := @mem_keys_foldl_send_iff (values.filter (!·.isNull)) [] key
  refine sent.trans ?_
  simp [and_assoc]

end Loading

namespace Dataset

/-- The records that belong to an owner, in order; none if its key is null. -/
def belongings (d : Dataset) (target attr : String) (l : Link) (o : Record) : List Record :=
  let key := Loading.ownerKey attr l o
  if key.isNull then [] else (d.answer target [key.key] l).map (·.record)

variable {d : Dataset} {s : Schema} {owner attr path : String} {r : Association} {l : Link}
  {roots : List Record} {type : ScalarType}

theorem fetchRelated_batch (known : Succeeds (s.entity r.target)) (keys : List Value) :
    d.fetchRelated s (Loading.batch owner attr r l keys) =
      .ok (d.answer r.target (keys.map Value.key) l) := by
  obtain ⟨target, htarget⟩ := known
  simp only [fetchRelated, Loading.batch, htarget, ok_bind]
  rfl

/-- An owner whose key has been sent is given what belongs to it. -/
theorem share_answer (notFloat : type ≠ .float)
    (typed : ∀ o ∈ d.rows r.target, o.id.type? = some type) {o : Record} {keys : List String}
    (unloaded : o.isLoaded attr = false)
    (sent : (Loading.ownerKey attr l o).isNull = false → (Loading.ownerKey attr l o).key ∈ keys) :
    Loading.share store attr r l (d.answer r.target keys l) o =
      some (.ofRecords r.kind.isToMany (d.belongings r.target attr l o)) := by
  have notLoaded : store.isLoaded o attr = false := unloaded
  unfold Loading.share Loading.recordsFor belongings
  rw [notLoaded]
  simp only [Bool.false_eq_true, if_false]
  split
  · rfl
  · next notNull => rw [filter_answer notFloat typed (sent (by simpa using notNull))]

/-- A join fetch onto owners without the association gives each what belongs to it. -/
theorem joined_eq (hr : s.association owner attr = .ok r) (hl : s.link owner attr = .ok l)
    (known : Succeeds (s.entity r.target)) (notFloat : type ≠ .float)
    (typed : ∀ o ∈ d.rows r.target, o.id.type? = some type)
    (unloaded : ∀ o ∈ Record.ownersAt (Path.steps path) roots, o.isLoaded attr = false) :
    Loading.joined store s owner path attr roots d =
      ((.ok (), Record.attach (Path.steps path) attr
        ((Record.ownersAt (Path.steps path) roots).map fun o =>
          some (.ofRecords r.kind.isToMany (d.belongings r.target attr l o))) roots), d) := by
  refine Loading.joined_eq_ok_iff.mpr ⟨r, hr, l, hl, ?_⟩
  generalize Record.ownersAt (Path.steps path) roots = owners at unloaded ⊢
  -- Every owner is pending, so that every key that is not null is sent.
  have pending : owners.filter (!store.isLoaded · attr) = owners := by
    refine List.filter_eq_self.mpr fun o ho => ?_
    show (!o.isLoaded attr) = true
    rw [unloaded o ho]
    rfl
  dsimp only
  rw [pending]
  split
  · next h =>
    rw [List.isEmpty_iff.mp h]
    exact ⟨(Record.attach_of_forall_eq_none (by simp)).symm, rfl⟩
  generalize hkeys : Loading.distinctKeys (owners.map (Loading.ownerKey attr l)) = keys
  refine ⟨d.answer r.target (keys.map Value.key) l, ?_, ?_⟩
  · split
    · next h =>
      -- Nothing is asked without a key; the answer would have been empty as well.
      rw [List.isEmpty_iff.mp h]
      have none : d.relatedTo r.target [] l = [] :=
        List.eq_nil_iff_forall_not_mem.mpr fun x hx => by cases (mem_relatedTo hx).2
      exact ⟨by rw [List.map_nil, answer, none]; rfl, rfl⟩
    · exact congrArg (·, d) (fetchRelated_batch known keys)
  · congr 1
    refine List.map_congr_left fun o ho => ?_
    refine share_answer notFloat typed (unloaded o ho) fun notNull => ?_
    rw [← hkeys]
    exact Loading.mem_keys_distinctKeys_iff.mpr ⟨_, List.mem_map.mpr ⟨o, ho, rfl⟩, notNull, rfl⟩

/-- Evaluation goes from a row along the association to what its link leads to. -/
theorem children_eq {q : Selection} {ev : Evaluator} {id : Nat} {join : JoinNode}
    (hev : Evaluator.of d s q = .ok ev) (hjoin : q.joins[id]? = some join)
    (howner : join.owner = owner) (hattr : join.attr = attr) {target : String}
    (htarget : join.target = .entity target) (hl : s.link owner attr = .ok l) (o : Record) :
    ev.children o id = (d.targetsOf target attr o l).map .entity := by
  obtain ⟨plans, hplans, h⟩ := bind_eq_ok.mp hev
  cases h
  obtain ⟨hid, rfl⟩ := List.getElem?_eq_some_iff.mp hjoin
  have hplans := mapM_eq_ok.mp hplans
  have hid' : id < plans.length := hplans.length_eq ▸ hid
  obtain ⟨a, _, hplan⟩ := bind_eq_ok.mp (hplans.get hid hid')
  simp only [List.get_eq_getElem, htarget, howner, hattr, hl, ok_bind] at hplan
  have hplan : plans[id]? = some (.link target l) := by
    rw [List.getElem?_eq_getElem hid']
    exact congrArg some (pure_eq_ok.mp hplan).symm
  unfold Evaluator.children
  simp only [hjoin, hplan, hattr]

/-- The owner carries what the association leads to when a filter is evaluated, in the order of the
identifiers, or the first of it; it carries nothing if its key is null. -/
def Stitched (ev : Evaluator) (id : Nat) (attr : String) (l : Link) (toMany : Bool)
    (o o' : Record) : Prop :=
  ∃ rs : List Record, o' = o.setRelation attr (.ofRecords toMany rs) ∧
    if (Loading.ownerKey attr l o).isNull then rs = []
    else
      (rs.map Row.entity).Perm (ev.children o id) ∧
        rs.Pairwise fun a b => ∃ c, a.id.compare b.id = some c ∧ c.isLE

/-- **A join fetch gives each owner its own targets.** Onto owners without the association it
stitches every one of them, and each as it would be alone. -/
theorem joined_stitches {declarations : List EntityDeclaration}
    (declared : Schema.declare declarations = .ok s) (filled : d.Filled)
    (hr : s.association owner attr = .ok r) (hl : s.link owner attr = .ok l)
    (notFloat : type ≠ .float) (typed : ∀ o ∈ d.rows r.target, o.id.type? = some type)
    (unloaded : ∀ o ∈ Record.ownersAt (Path.steps path) roots, o.isLoaded attr = false)
    {q : Selection} {ev : Evaluator} {id : Nat} {join : JoinNode}
    (hev : Evaluator.of d s q = .ok ev) (hjoin : q.joins[id]? = some join)
    (howner : join.owner = owner) (hattr : join.attr = attr)
    (htarget : join.target = .entity r.target) :
    ∃ roots', Loading.joined store s owner path attr roots d = ((.ok (), roots'), d) ∧
      List.Forall₂
        (fun o o' => Stitched ev id attr l r.kind.isToMany o o' ∧
          Loading.joined store s owner "" attr [o] d = ((.ok (), [o']), d))
        (Record.ownersAt (Path.steps path) roots)
        (Record.ownersAt (Path.steps path) roots') := by
  have known := (Schema.closed_of_declare declared).succeeds_target hr
  refine ⟨_, joined_eq hr hl known notFloat typed unloaded, ?_⟩
  rw [Record.ownersAt_attach (List.length_map ..), List.zipWith_map_right, List.zipWith_self,
    List.forall₂_map_right_iff]
  refine List.forall₂_same.mpr fun o ho => ⟨⟨_, rfl, ?_⟩, ?_⟩
  · have children := children_eq hev hjoin howner hattr htarget hl o
    unfold belongings
    split
    · simp [*]
    · next notNull =>
      rw [children, targetsOf_eq (filled.exact r.target)]
      simp only [notNull]
      exact ⟨((answer_perm ..).map _).map _, pairwise_answer notFloat typed l⟩
  · have alone : ∀ p ∈ Record.ownersAt (Path.steps "") [o], p.isLoaded attr = false := by
      intro p hp
      obtain rfl := List.mem_singleton.mp hp
      exact unloaded p ho
    exact joined_eq hr hl known notFloat typed alone

namespace Library

/-- Authors and their books. -/
def entities : List EntityDeclaration :=
  [⟨"Author", "author", [.id "id" .integer, .association "books" .oneToMany "Book"]⟩,
    ⟨"Book", "book", [.id "id" .integer, .association "author" .manyToOne "Author"]⟩]

def schema : Schema :=
  ⟨[⟨"Author", "author", "id",
      [⟨"id", "id", false, .scalar .integer⟩,
        ⟨"books", "books", true, .association ⟨.oneToMany, "Book", none, false, none, none⟩⟩]⟩,
    ⟨"Book", "book", "id",
      [⟨"id", "id", false, .scalar .integer⟩,
        ⟨"author", "author_id", true,
          .association ⟨.manyToOne, "Author", none, true, some "author_id", none⟩⟩]⟩]⟩

def author (id : Value) : Record := .new "Author" "id" id

def book (id writer : Value) : Record :=
  { Record.new "Book" "id" id with references := [("author", writer)] }

/-- Two books of the first author, put in out of order, and one of the second. -/
def books : Dataset :=
  ((Dataset.empty.insert (book (.int 3) (.int 1))).insert (book (.int 2) (.int 2))).insert
    (book (.int 1) (.int 1))

def join : JoinNode := ⟨0, .root, "Author", "books", "books", .entity "Book"⟩

/-- The authors with a condition on their books. -/
def selection : Selection := ⟨"Author", [join], none, false, [], [], none, 0⟩

def kept : Link := .foreignKey "author" "author_id"

def evaluator : Evaluator := ⟨books, [join], [.link "Book" kept]⟩

end Library

open Library in
/-- The first author stands there twice, and another author has no key. -/
theorem joined_stitches_library :
    ∃ roots', Loading.joined store schema "Author" "" "books"
        [author (.int 1), author (.int 2), author (.int 1), author .null] books =
        ((.ok (), roots'), books) ∧
      List.Forall₂
        (fun o o' => Stitched evaluator 0 "books" kept true o o' ∧
          Loading.joined store schema "Author" "" "books" [o] books = ((.ok (), [o']), books))
        [author (.int 1), author (.int 2), author (.int 1), author .null] roots' := by
  have declared : Schema.declare entities = .ok schema := by rfl
  have filled : books.Filled := (((Filled.empty.insert _).insert _).insert _)
  have association : schema.association "Author" "books" =
      .ok ⟨.oneToMany, "Book", none, false, none, none⟩ := rfl
  have linked : schema.link "Author" "books" = .ok kept := rfl
  have notFloat : ScalarType.integer ≠ .float := by decide
  have typed : ∀ o ∈ books.rows "Book", o.id.type? = some .integer := by decide +kernel
  have unloaded : ∀ o ∈ Record.ownersAt (Path.steps "")
      [author (.int 1), author (.int 2), author (.int 1), author .null],
      o.isLoaded "books" = false := by decide +kernel
  have evaluates : Evaluator.of books schema selection = .ok evaluator := rfl
  have joins : selection.joins[0]? = some join := rfl
  exact joined_stitches declared filled association linked notFloat typed unloaded evaluates
    joins rfl rfl rfl

end Dataset

end EntityQuery
