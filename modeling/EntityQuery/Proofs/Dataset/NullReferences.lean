import EntityQuery.Proofs.Fetch.Stitching
import EntityQuery.Proofs.Filter.NullTests
import EntityQuery.Proofs.Value.Keys

/-!
# References that are null

A record that keeps no identifier for an association is tied to nothing, and a fetch loads nothing
onto it (`joined_null`). When a filter is evaluated, the target is looked for by its key instead,
and the key of null is that of a text: **a target that is identified by this text, or by null, is
then found** (`targetsOf_null`, `null_reference_leads_to`), and the question whether the association
leads nowhere is answered by what is found (`keeps_leadsNowhere`). In
`null_reference_finds_pseudonym` a book without an author is tied to one.
-/

namespace EntityQuery

open Schema (firstJoin leadsNowhere)

namespace Evaluator

variable {d : Dataset} {s : Schema} {ev : Evaluator} {name attr : String} {root target : Entity}

/-- The question whether an association leads nowhere is answered by the rows to which it leads. -/
theorem keeps_leadsNowhere
    (hev : Evaluator.of d s (.ofFilter name
      (.ofPredicate (some (.leaf (leadsNowhere target))) [firstJoin root attr target])) = .ok ev)
    (o : Record) :
    ev.keeps (.ofFilter name
      (.ofPredicate (some (.leaf (leadsNowhere target))) [firstJoin root attr target])) o = true ↔
      ev.children o 0 = [] ∨
        ∃ row ∈ ev.children o 0,
          (row.read (.attribute target.id target.idColumn)).isNull = true := by
  have joins : ev.joins = [firstJoin root attr target] := joins_of hev
  have truth (b : Binding) : rowTruth o b (.leaf (leadsNowhere target)) = .holds ↔
      (value o b ⟨.join 0, .attribute target.id target.idColumn⟩).isNull = true := by
    show Truth.ofBool (value o b _).isNull = .holds ↔ _
    cases (value o b ⟨.join 0, .attribute target.id target.idColumn⟩).isNull <;> decide
  have expanded : ev.expand o = ev.extendAlong o (firstJoin root attr target) [none] := by
    unfold expand
    rw [joins]
    exact List.append_nil _
  have kept : ev.keeps (.ofFilter name
      (.ofPredicate (some (.leaf (leadsNowhere target))) [firstJoin root attr target])) o =
      (ev.expand o).any fun b => rowTruth o b (.leaf (leadsNowhere target)) = .holds := rfl
  rw [kept, expanded, List.any_eq_true]
  simp only [decide_eq_true_eq, truth]
  rw [extendAlong_eq]
  unfold options
  rw [show ev.reach o (firstJoin root attr target) [none] = ev.children o 0 from rfl]
  cases ev.children o 0 with
  | nil => exact iff_of_true ⟨_, List.mem_singleton_self _, rfl⟩ (.inl rfl)
  | cons row rows =>
    have read (row : Row) : value o (assign 0 [none] (some row))
        ⟨.join 0, .attribute target.id target.idColumn⟩ =
          row.read (.attribute target.id target.idColumn) := value_eq _ _
    simp only [List.isEmpty_cons, Bool.false_eq_true, if_false, List.mem_map,
      List.cons_ne_nil, false_or]
    constructor
    · rintro ⟨_, ⟨_, ⟨row, there, rfl⟩, rfl⟩, null⟩
      exact ⟨row, there, read row ▸ null⟩
    · rintro ⟨row, there, null⟩
      exact ⟨_, ⟨_, ⟨row, there, rfl⟩, rfl⟩, (read row).symm ▸ null⟩

end Evaluator

namespace Dataset

variable {d : Dataset} {s : Schema} {owner attr target : String} {r : Association} {o : Record}

/-- A null reference finds the target whose key is that of null. -/
theorem targetsOf_null (exact : (d.table target).Exact) (null : (o.reference attr).isNull = true) :
    d.targetsOf target attr o .identity = (d.rows target).filter (·.key = "NULL") := by
  show (d.find? target (o.reference attr)).toList = _
  rw [Value.eq_null_of_isNull null]
  exact (exact.filter_rows "NULL").symm

theorem targetsOf_null_eq_nil_iff (exact : (d.table target).Exact)
    (null : (o.reference attr).isNull = true) :
    d.targetsOf target attr o .identity = [] ↔
      ∀ c ∈ d.rows target, c.id ≠ .null ∧ c.id ≠ .text "NULL" := by
  rw [targetsOf_null exact null, List.filter_eq_nil_iff]
  refine forall₂_congr fun c _ => ?_
  rw [decide_eq_true_eq, ← not_or]
  exact not_congr Value.key_eq_null_iff

/-! ## Loading -/

/-- A join fetch gives each owner its share of one answer, if any owner has a key. -/
theorem exists_joined {l : Link} (hr : s.association owner attr = .ok r)
    (hl : s.link owner attr = .ok l) (known : Succeeds (s.entity r.target)) (path : String)
    (roots : List Record) :
    ∃ related, Loading.joined store s owner path attr roots d =
      ((.ok (), Record.attach (Path.steps path) attr
        ((Record.ownersAt (Path.steps path) roots).map (Loading.share store attr r l related))
        roots), d) := by
  generalize howners : Record.ownersAt (Path.steps path) roots = owners
  by_cases idle : (owners.filter (!store.isLoaded · attr)).isEmpty = true
  · refine ⟨[], Loading.joined_eq_ok_iff.mpr ⟨r, hr, l, hl, ?_⟩⟩
    rw [howners]
    dsimp only
    rw [if_pos idle]
    refine ⟨(Record.attach_of_forall_eq_none fun a ha => ?_).symm, rfl⟩
    obtain ⟨o, ho, rfl⟩ := List.mem_map.mp ha
    have loaded := List.filter_eq_nil_iff.mp (List.isEmpty_iff.mp idle) o ho
    exact if_pos (by simpa using loaded)
  · generalize hkeys : Loading.distinctKeys
      ((owners.filter (!store.isLoaded · attr)).map (Loading.ownerKey attr l)) = keys
    refine ⟨if keys.isEmpty then [] else d.answer r.target (keys.map Value.key) l,
      Loading.joined_eq_ok_iff.mpr ⟨r, hr, l, hl, ?_⟩⟩
    rw [howners]
    dsimp only
    rw [if_neg idle, hkeys]
    refine ⟨_, ?_, rfl⟩
    split
    · exact ⟨rfl, rfl⟩
    · exact congrArg (·, d) (fetchRelated_batch known keys)

theorem isToMany_of_identity (hr : s.association owner attr = .ok r)
    (hl : s.link owner attr = .ok .identity) : r.kind.isToMany = false := by
  unfold Schema.link at hl
  rw [hr, ok_bind] at hl
  cases kind : r.kind with
  | manyToOne | oneToOne => rfl
  | manyToMany =>
    rw [kind] at hl
    obtain ⟨_, _, hl⟩ := bind_eq_ok.mp hl
    cases hl
  | oneToMany =>
    have noReference : r.isReference = false := by simp [Association.isReference, kind,
      RelationKind.isToMany]
    rw [kind] at hl
    simp only [noReference, Bool.false_eq_true, if_false] at hl
    obtain ⟨_, _, hl⟩ := bind_eq_ok.mp hl
    obtain ⟨_, _, hl⟩ := bind_eq_ok.mp hl
    cases hl

/-- Nothing is loaded onto an owner with a null reference. -/
theorem joined_null (hr : s.association owner attr = .ok r)
    (hl : s.link owner attr = .ok .identity) (known : Succeeds (s.entity r.target))
    (path : String) (roots : List Record) :
    ∃ roots', Loading.joined store s owner path attr roots d = ((.ok (), roots'), d) ∧
      List.Forall₂ (fun o o' : Record => (o.reference attr).isNull = true →
          o.isLoaded attr = false → o' = o.setRelation attr (.one none))
        (Record.ownersAt (Path.steps path) roots) (Record.ownersAt (Path.steps path) roots') := by
  obtain ⟨related, done⟩ := exists_joined (d := d) hr hl known path roots
  refine ⟨_, done, ?_⟩
  rw [Record.ownersAt_attach (List.length_map ..), List.zipWith_map_right, List.zipWith_self,
    List.forall₂_map_right_iff]
  refine List.forall₂_same.mpr fun o _ null unloaded => ?_
  have notLoaded : store.isLoaded o attr = false := unloaded
  have nothing : Loading.recordsFor related (Loading.ownerKey attr .identity o) = [] := if_pos null
  unfold Loading.share
  rw [notLoaded, nothing, isToMany_of_identity hr hl]
  rfl

/-! ## Evaluating -/

/-- The question whether the association leads nowhere can be asked by its name. -/
theorem exists_evaluator_isNull {nullSafe : Bool} {e : Entity} (plain : IsPlainName attr)
    (hr : s.association owner attr = .ok r) (hl : s.link owner attr = .ok .identity)
    (htarget : s.entity r.target = .ok e) :
    ∃ f ev, s.compileFilter nullSafe (attr ++ "::isnull") owner = .ok f ∧
      Evaluator.of d s (.ofFilter owner f) = .ok ev ∧
      ∀ o : Record, ev.keeps (.ofFilter owner f) o = true ↔
        ∀ c ∈ d.targetsOf r.target attr o .identity, (c.field e.id).isNull = true := by
  obtain ⟨a, ha, kind⟩ := Schema.association_eq_ok_iff.mp hr
  obtain ⟨root, hroot, hattr⟩ := Schema.attributeOf_eq_ok_iff.mp ha
  have named := Schema.name_of_entity hroot
  have target := Schema.name_of_entity htarget
  subst named
  have hev : Evaluator.of d s (.ofFilter root.name
      (.ofPredicate (some (.leaf (leadsNowhere e))) [firstJoin root attr e])) =
      .ok ⟨d, [firstJoin root attr e], [.link r.target .identity]⟩ := by
    have plan : JoinPlan.of s (firstJoin root attr e) = .ok (.link r.target .identity) := by
      refine bind_eq_ok.mpr ⟨a, ha, ?_⟩
      show (do return JoinPlan.link e.name (← s.link root.name attr)) = _
      rw [hl, target]
      rfl
    exact bind_eq_ok.mpr ⟨_, mapM_eq_ok.mpr (.cons plan .nil), rfl⟩
  refine ⟨_, _, Schema.compileFilter_isNull hroot plain hattr kind htarget, hev, fun o => ?_⟩
  have entered : (Selection.ofFilter root.name (.ofPredicate (some (.leaf (leadsNowhere e)))
      [firstJoin root attr e])).joins[0]? = some (firstJoin root attr e) := rfl
  have children : Evaluator.children _ o 0 = (d.targetsOf r.target attr o .identity).map .entity :=
    children_eq hev entered rfl rfl (congrArg JoinTarget.entity target) hl o
  have found : d.targetsOf r.target attr o .identity =
      (d.find? r.target (o.reference attr)).toList := rfl
  rw [Evaluator.keeps_leadsNowhere hev, children, found]
  cases d.find? r.target (o.reference attr) with
  | none => simp
  | some c => simp [Row.read]

/-- **A null reference leads to what is identified like null.** A record with a null reference is
tied to the targets that are identified by null or by the text that is shown for null, and asking
whether the association leads nowhere goes by the identifier that these have among their values. A
join fetch loads nothing onto it. -/
theorem null_reference_leads_to {declarations : List EntityDeclaration}
    (declared : Schema.declare declarations = .ok s) (filled : d.Filled)
    (hr : s.association owner attr = .ok r) (hl : s.link owner attr = .ok .identity) :
    (∀ (q : Selection) (ev : Evaluator) (id : Nat) (join : JoinNode) (o : Record),
      Evaluator.of d s q = .ok ev → q.joins[id]? = some join → join.owner = owner →
      join.attr = attr → join.target = .entity r.target → (o.reference attr).isNull = true →
        ev.children o id = ((d.rows r.target).filter (·.key = "NULL")).map .entity ∧
        (ev.children o id = [] ↔ ∀ c ∈ d.rows r.target, c.id ≠ .null ∧ c.id ≠ .text "NULL")) ∧
    (IsPlainName attr → ∀ nullSafe, ∃ f ev e,
      s.compileFilter nullSafe (attr ++ "::isnull") owner = .ok f ∧
      Evaluator.of d s (.ofFilter owner f) = .ok ev ∧ s.entity r.target = .ok e ∧
      ∀ o : Record, (o.reference attr).isNull = true →
        (ev.keeps (.ofFilter owner f) o = true ↔
          ∀ c ∈ d.rows r.target, c.id = .null ∨ c.id = .text "NULL" →
            (c.field e.id).isNull = true)) ∧
    ∀ (path : String) (roots : List Record), ∃ roots',
      Loading.joined store s owner path attr roots d = ((.ok (), roots'), d) ∧
      List.Forall₂ (fun o o' : Record => (o.reference attr).isNull = true →
          o.isLoaded attr = false → o' = o.setRelation attr (.one none))
        (Record.ownersAt (Path.steps path) roots) (Record.ownersAt (Path.steps path) roots') := by
  have exact := filled.exact r.target
  obtain ⟨e, htarget⟩ := (Schema.closed_of_declare declared).succeeds_target hr
  refine ⟨?_, fun plain nullSafe => ?_, joined_null hr hl ⟨e, htarget⟩⟩
  · intro q ev id join o hev hjoin howner hattr hentity null
    have children := children_eq hev hjoin howner hattr hentity hl o
    refine ⟨by rw [children, targetsOf_null exact null], ?_⟩
    rw [children, List.map_eq_nil_iff]
    exact targetsOf_null_eq_nil_iff exact null
  · obtain ⟨f, ev, compiled, hev, keeps⟩ := exists_evaluator_isNull (d := d) plain hr hl htarget
    refine ⟨f, ev, e, compiled, hev, htarget, fun o null => ?_⟩
    rw [keeps, targetsOf_null exact null]
    simp only [List.mem_filter, decide_eq_true_eq, and_imp]
    refine forall₂_congr fun c _ => ?_
    exact imp_congr_left Value.key_eq_null_iff

namespace Pseudonym

/-- Books of authors, who are identified by their names. -/
def entities : List EntityDeclaration :=
  [⟨"Author", "author", [.id "id" .text]⟩,
    ⟨"Book", "book", [.id "id" .integer, .association "author" .manyToOne "Author"]⟩]

def written : Association := ⟨.manyToOne, "Author", none, true, some "author_id", none⟩

def schema : Schema :=
  ⟨[⟨"Author", "author", "id", [⟨"id", "id", false, .scalar .text⟩]⟩,
    ⟨"Book", "book", "id",
      [⟨"id", "id", false, .scalar .integer⟩,
        ⟨"author", "author_id", true, .association written⟩]⟩]⟩

/-- Null is what this author calls himself. -/
def author : Record := .new "Author" "id" (.text "NULL")

/-- A book without an author. -/
def book : Record := .new "Book" "id" (.int 1)

def stock : Dataset := (Dataset.empty.insert author).insert book

theorem declared : Schema.declare entities = .ok schema := by rfl

theorem filled : stock.Filled := (Filled.empty.insert _).insert _

theorem plain : IsPlainName "author" := by
  refine ⟨⟨by decide, by decide⟩, ?_⟩
  rw [← List.forall_iff_forall_mem]
  decide

end Pseudonym

open Pseudonym in
theorem null_reference_leads_to_pseudonym :
    (book.reference "author").isNull = true ∧
    (∃ f ev e, schema.compileFilter true ("author" ++ "::isnull") "Book" = .ok f ∧
      Evaluator.of stock schema (.ofFilter "Book" f) = .ok ev ∧ schema.entity "Author" = .ok e ∧
      (ev.keeps (.ofFilter "Book" f) book = true ↔
        ∀ c ∈ stock.rows "Author", c.id = .null ∨ c.id = .text "NULL" →
          (c.field e.id).isNull = true)) ∧
    ∃ roots', Loading.joined store schema "Book" "" "author" [book] stock =
      ((.ok (), roots'), stock) := by
  have association : schema.association "Book" "author" = .ok written := rfl
  have linked : schema.link "Book" "author" = .ok .identity := rfl
  obtain ⟨-, asked, loads⟩ := null_reference_leads_to declared filled association linked
  obtain ⟨f, ev, e, compiled, hev, target, keeps⟩ := asked plain true
  obtain ⟨roots', done, -⟩ := loads "" [book]
  exact ⟨rfl, ⟨f, ev, e, compiled, hev, target, keeps book rfl⟩, roots', done⟩

open Pseudonym in
/-- The book has no author, a fetch loads none onto it, and still it is not kept where books without
an author are asked for: it is tied to the author who is called so. -/
theorem null_reference_finds_pseudonym :
    Schema.declare entities = .ok schema ∧ stock.Filled ∧
    schema.link "Book" "author" = .ok .identity ∧ (book.reference "author").isNull = true ∧
    Loading.joined store schema "Book" "" "author" [book] stock =
      ((.ok (), [book.setRelation "author" (.one none)]), stock) ∧
    ∃ f ev, schema.compileFilter true "author::isnull" "Book" = .ok f ∧
      Evaluator.of stock schema (.ofFilter "Book" f) = .ok ev ∧
      ev.children book 0 = [.entity author] ∧
      stock.select schema (.ofFilter "Book" f) = .ok [] := by
  have compiled : schema.compileFilter true ("author" ++ "::isnull") "Book" = .ok _ :=
    Schema.compileFilter_isNull rfl plain rfl rfl rfl
  exact ⟨declared, filled, rfl, rfl, rfl, _, _, compiled, rfl, rfl, rfl⟩

end Dataset

end EntityQuery
