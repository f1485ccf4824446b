import EntityQuery.Proofs.Dataset.Reach
import EntityQuery.Proofs.Filter.Operands
import Mathlib.Data.Finset.Card

/-!
# Counting members

A function in a filter is applied to the values that are read at the bindings of a group, and the
bindings of a record are one group unless attributes beyond the record tell them apart
(`groups_of_root`). **Counting an association counts the records that its path reaches**, by their
identifiers (`counts_members`): with other joins the same identifiers are read more often, but no
others.

A path that leads to the records of an entity (`LeadsTo`) stands for their identifier
(`route_of_leadsTo`), so that counting it counts distinct identifiers; and what the bindings of a
group read is what the steps of the path reach (`groupOperand_count`). `CountsMembers` says this of
one operand; it is carried over to all operands of a compiled filter by `operands_of_compiled`.
-/

namespace EntityQuery

/-- Each item is kept once. -/
theorem length_eraseDups {α : Type} [DecidableEq α] (l : List α) :
    l.eraseDups.length = l.toFinset.card := by
  induction h : l.length using Nat.strongRecOn generalizing l with
  | ind n ih =>
    subst h
    cases l with
    | nil => rfl
    | cons a l =>
      have shorter : (l.filter fun b => !b == a).length < (a :: l).length :=
        Nat.lt_succ_of_le (List.length_filter_le _ _)
      have others : (l.filter fun b => !b == a).toFinset = (insert a l.toFinset).erase a := by
        ext b
        simp [and_comm]
      rw [List.eraseDups_cons, List.length_cons, ih _ shorter _ rfl, others, List.toFinset_cons,
        Finset.card_erase_add_one (Finset.mem_insert_self a _)]

/-! ## Groups -/

namespace Evaluator

variable {root : Record}

theorem value_of_root {a : AttrRef} (h : a.source = .root) (b c : Binding) :
    value root b a = value root c a := by
  rw [value_eq, value_eq, h]
  rfl

/-- Attributes of the record itself do not tell its bindings apart. -/
theorem groups_of_root {groupBy : List AttrRef} (own : ∀ a ∈ groupBy, a.source = .root)
    {bindings : List Binding} (some_ : bindings ≠ []) :
    groups root groupBy bindings = [bindings] := by
  have same (b c : Binding) : groupKey root groupBy b = groupKey root groupBy c :=
    List.map_congr_left fun a ha => congrArg Value.key (value_of_root (own a ha) b c)
  obtain ⟨b, rest, rfl⟩ := List.exists_cons_of_ne_nil some_
  have others : (rest.map (groupKey root groupBy)).filter
      (fun key => !key == groupKey root groupBy b) = [] := by
    refine List.filter_eq_nil_iff.mpr fun key hkey => ?_
    obtain ⟨c, _, rfl⟩ := List.mem_map.mp hkey
    simp [same c b]
  unfold groups
  rw [List.map_cons, List.eraseDups_cons, others, List.eraseDups_nil]
  simp [same _ b]

theorem expand_ne_nil (ev : Evaluator) (root : Record) : ev.expand root ≠ [] := by
  rw [expand_eq]
  exact expandFrom_ne_nil ev root _ _

/-- The values of a group that are not null are those of the rows that it reads. -/
theorem filter_values (root : Record) (bindings : List Binding) (a : AttrRef) :
    (bindings.map fun b => value root b a).filter (!·.isNull) =
      bindings.filterMap fun b => (row root b a.source).bind (·.present? a.column) := by
  induction bindings with
  | nil => rfl
  | cons b bindings ih =>
    rw [List.map_cons, List.filter_cons, List.filterMap_cons, ih, value_eq]
    cases row root b a.source with
    | none => rfl
    | some r => by_cases null : (r.read a.column).isNull <;> simp [Row.present?, null]

end Evaluator

/-! ## Members -/

namespace Schema

/-- The segments lead to the records of an entity: by an association, or to their identifier. -/
def LeadsTo (s : Schema) (e : Entity) (segs : List String) (owner : Entity) : Prop :=
  segs ≠ [] ∧ s.via? e segs = some owner ∨
    ∃ init a type, segs = init ++ [owner.id] ∧ s.via? e init = some owner ∧
      owner.attribute? owner.id = some a ∧ a.kind = .scalar type

variable {s : Schema} {e owner : Entity} {path base : String} {segs : List String}

/-- The first segment is the identifier, or an association that leads to the entity or further. -/
theorem LeadsTo.of_cons {segment : String} {rest : List String}
    (h : s.LeadsTo e (segment :: rest) owner) :
    (rest = [] ∧ segment = owner.id ∧ e = owner ∧
        ∃ a type, owner.attribute? owner.id = some a ∧ a.kind = .scalar type) ∨
      ∃ a r target, e.attribute? segment = some a ∧ a.kind = .association r ∧
        s.entity r.target = .ok target ∧
        (rest = [] ∧ target = owner ∨ s.LeadsTo target rest owner) := by
  rcases h with ⟨_, h⟩ | ⟨init, a, type, hsegs, h, ha, scalar⟩
  · obtain ⟨a, r, target, ha, hr, htarget, h⟩ := via?_cons.mp h
    refine .inr ⟨a, r, target, ha, hr, htarget, ?_⟩
    cases rest with
    | nil => exact .inl ⟨rfl, Option.some.inj h⟩
    | cons => exact .inr (.inl ⟨List.cons_ne_nil _ _, h⟩)
  · cases init with
    | nil =>
      obtain ⟨rfl, rfl⟩ := List.cons.inj hsegs
      exact .inl ⟨rfl, rfl, Option.some.inj h, a, type, ha, scalar⟩
    | cons first init =>
      obtain ⟨rfl, rfl⟩ := List.cons.inj hsegs
      obtain ⟨a', r, target, ha', hr, htarget, h⟩ := via?_cons.mp h
      exact .inr ⟨a', r, target, ha', hr, htarget, .inr (.inr ⟨init, a, type, rfl, h, ha, scalar⟩)⟩

theorem LeadsTo.ne_nil (h : s.LeadsTo e segs owner) : segs ≠ [] := by
  rcases h with ⟨some_, _⟩ | ⟨init, _, _, rfl, _⟩
  · exact some_
  · exact List.concat_ne_nil owner.id init

theorem name_idAttribute (e : Entity) : e.idAttribute.name = e.id := by
  unfold Entity.idAttribute
  cases h : e.attribute? e.id with
  | none => rfl
  | some a => exact Entity.name_of_attribute? h

/-- A path that leads to the records of an entity stands for their identifier. -/
theorem route_of_leadsTo {d : Destination} (leads : s.LeadsTo e segs owner)
    (h : (s.route path e base segs).2 = .ok d) :
    d.identifier = true ∧ ∃ column, d.column = .attribute owner.id column := by
  induction segs generalizing e base with
  | nil => cases h
  | cons segment rest ih =>
    rcases leads.of_cons with ⟨rfl, rfl, rfl, a, type, ha, scalar⟩ |
      ⟨a, r, target, ha, association, htarget, further⟩
    · rw [route, ha] at h
      simp only [scalar, List.isEmpty_nil, if_true] at h
      cases h
      exact ⟨by simp, a.column, by rw [Entity.name_of_attribute? ha]⟩
    · rw [route, ha] at h
      simp only [association, htarget] at h
      cases rest with
      | nil =>
        rcases further with ⟨_, rfl⟩ | further
        · cases h
          exact ⟨rfl, _, by rw [name_idAttribute]⟩
        · exact absurd rfl further.ne_nil
      | cons next rest =>
        rcases further with ⟨none, _⟩ | further
        · cases none
        · exact ih further h

end Schema

/-! ## Counting -/

/-- The keys of the identifiers of the records of an entity that a path reaches. -/
def Dataset.memberKeys (d : Dataset) (s : Schema) (e : Entity) (path : String) (owner : Entity)
    (root : Record) : List String :=
  (d.reachedBy s e path root).filterMap fun
    | .entity r => if (r.field owner.id).isNull then none else some (r.field owner.id).key
    | .element _ => none

/-- Counting a path that leads to the records of an entity counts their identifiers. -/
theorem Operand.OfPath.eq_countDistinct {s : Schema} {e owner : Entity} {joins : Joins}
    {path : String} {o : Operand} (h : o.OfPath s e joins path (some .count))
    (leads : s.LeadsTo e (Path.segments path) owner) :
    ∃ steps d way source column,
      s.route path e "" (Path.segments path) = (steps, .ok d) ∧ joins.Way .root way source ∧
      way.map JoinNode.step = steps ∧ d.column = .attribute owner.id column ∧
      o = .aggregate .countDistinct ⟨source, d.column⟩ := by
  obtain ⟨steps, d, way, source, route, goes, hway, rfl⟩ := h
  obtain ⟨identifier, column, hcolumn⟩ := Schema.route_of_leadsTo leads (congrArg Prod.snd route)
  refine ⟨steps, d, way, source, column, route, goes, hway, hcolumn, ?_⟩
  rw [identifier]
  rfl

namespace Evaluator

variable {d : Dataset} {s : Schema} {q : Selection} {ev : Evaluator} {e : Entity} {path : String}

/-- Counting a path that leads to the records of an entity counts those that it reaches, each of
them once. -/
theorem groupOperand_count (hev : Evaluator.of d s q = .ok ev) (sound : q.joins.Sound s e)
    {owner : Entity} (leads : s.LeadsTo e (Path.segments path) owner) {o : Operand}
    (h : o.OfPath s e q.joins path (some .count)) (root : Record) :
    groupOperand root (ev.expand root) o =
      .one (.int (Int64.ofNat (d.memberKeys s e path owner root).toFinset.card)) := by
  obtain ⟨_, destination, way, source, column, route, goes, rfl, hcolumn, rfl⟩ :=
    h.eq_countDistinct leads
  have keys : d.memberKeys s e path owner root =
      (d.reached s (way.map JoinNode.step) (.entity root)).filterMap
        fun r => (r.present? destination.column).map Value.key := by
    rw [Dataset.memberKeys, Dataset.reachedBy, route, hcolumn]
    refine List.filterMap_congr fun r _ => ?_
    cases r with
    | entity r => by_cases null : (r.field owner.id).isNull <;> simp [Row.present?, Row.read, null]
    | element => rfl
  have values : ((ev.expand root).filterMap fun b =>
        (row root b source).bind (·.present? destination.column)).map Value.key =
      (ev.expand root).filterMap fun b =>
        (row root b source).bind fun r => (r.present? destination.column).map Value.key := by
    rw [List.map_filterMap]
    exact List.filterMap_congr fun b _ => Option.map_bind
  have same : ((ev.expand root).filterMap fun b => (row root b source).bind fun r =>
        (r.present? destination.column).map Value.key).toFinset = (List.filterMap _ _).toFinset :=
    List.toFinset.ext fun key => mem_filterMap_expand_iff hev sound goes
  have present := filter_values root (ev.expand root) ⟨source, destination.column⟩
  rw [keys, ← same, ← values, ← length_eraseDups, ← present]
  rfl

/-- Where the operand counts a path that leads to the records of an entity, it stands for the number
of those that the path reaches from the record. -/
def CountsMembers (d : Dataset) (s : Schema) (e : Entity) (ev : Evaluator) (root : Record)
    (path : String) (function : Option Aggregate) (o : Operand) : Prop :=
  ∀ owner, function = some .count → s.LeadsTo e (Path.segments path) owner →
    groupOperand root (ev.expand root) o =
        .one (.int (Int64.ofNat (d.memberKeys s e path owner root).toFinset.card)) ∧
      (d.reachedBy s e path root = [] → groupOperand root (ev.expand root) o = .one (.int 0))

theorem countsMembers_of_ofPath (hev : Evaluator.of d s q = .ok ev)
    (sound : q.joins.Sound s e) {function : Option Aggregate} {o : Operand}
    (h : o.OfPath s e q.joins path function) (root : Record) :
    CountsMembers d s e ev root path function o := by
  rintro owner rfl leads
  have count := groupOperand_count hev sound leads h root
  refine ⟨count, fun none => ?_⟩
  rw [count, Dataset.memberKeys, none]
  rfl

/-- What holds of every operand that reads a path holds of the operands of a compiled filter, whose
bindings make one group for each record. -/
theorem operands_of_compiled {P : Entity → Record → String → Option Aggregate → Operand → Prop}
    {nullSafe : Bool} {filter name : String} {f : CompiledFilter}
    (compiled : s.compileFilter nullSafe filter name = .ok f)
    (own : ∀ a ∈ f.groupBy, a.source = .root)
    (holds : ∀ e root path function o, f.joins.Sound s e → o.OfPath s e f.joins path function →
      P e root path function o) :
    ∃ e tokens, s.entity name = .ok e ∧ scan filter = .ok tokens ∧ ∀ root,
      groups root f.groupBy (ev.expand root) = [ev.expand root] ∧
        List.Forall₂ (Comparison.OfWord (P e root)) (terms tokens)
          (Formula.leavesOf f.predicate) := by
  obtain ⟨e, tokens, he, htokens, leaves⟩ := Schema.compileFilter_ofWords compiled
  obtain ⟨e', he', compiled⟩ := Schema.compileFilter_compiled compiled
  cases he.symm.trans he'
  refine ⟨e, tokens, he, htokens, fun root => ⟨?_, ?_⟩⟩
  · exact groups_of_root own (expand_ne_nil ev root)
  · exact leaves.imp fun _ _ leaf => leaf.imp fun path function o reads =>
      holds e root path function o compiled.joins reads

/-- **Counting an association counts its members**, whatever other joins the filter has. -/
theorem counts_members {nullSafe : Bool} {filter name : String} {f : CompiledFilter}
    (compiled : s.compileFilter nullSafe filter name = .ok f)
    (own : ∀ a ∈ f.groupBy, a.source = .root)
    (hev : Evaluator.of d s (.ofFilter name f) = .ok ev) :
    ∃ e tokens, s.entity name = .ok e ∧ scan filter = .ok tokens ∧ ∀ root,
      groups root f.groupBy (ev.expand root) = [ev.expand root] ∧
        List.Forall₂ (Comparison.OfWord (CountsMembers d s e ev root)) (terms tokens)
          (Formula.leavesOf f.predicate) :=
  operands_of_compiled compiled own fun _ root _ _ _ sound reads =>
    countsMembers_of_ofPath hev sound reads root

namespace Bookshelf

def author : Entity :=
  ⟨"Author", "author", "id",
    [⟨"id", "id", false, .scalar .integer⟩,
      ⟨"books", "books", true, .association ⟨.oneToMany, "Book", none, false, none, none⟩⟩,
      ⟨"prizes", "prizes", true, .collection ⟨"author_prizes", "author_id", "prizes", .integer⟩⟩,
      ⟨"tags", "tags", true, .collection ⟨"author_tags", "author_id", "tags", .text⟩⟩]⟩

def book : Entity :=
  ⟨"Book", "book", "id",
    [⟨"id", "id", false, .scalar .integer⟩,
      ⟨"author", "author_id", true,
        .association ⟨.manyToOne, "Author", none, true, some "author_id", none⟩⟩]⟩

/-- Authors with their books, their prizes and their tags. -/
def schema : Schema := ⟨[author, book]⟩

def writer : Record := .new "Author" "id" (.int 1)

def laureate : Record := .new "Author" "id" (.int 2)

def written (id : Value) : Record :=
  { Record.new "Book" "id" id with references := [("author", .int 1)] }

/-- An author with two books, a prize and two tags, and one with two prizes and a tag. -/
def stock : Dataset :=
  let records := (((Dataset.empty.insert writer).insert laureate).insert (written (.int 1))).insert
    (written (.int 2))
  let prizes := ((records.addElement "author_prizes" ⟨.int 1, .null, .int 5⟩).addElement
    "author_prizes" ⟨.int 2, .null, .int 3⟩).addElement "author_prizes" ⟨.int 2, .null, .int 4⟩
  ((prizes.addElement "author_tags" ⟨.int 1, .null, .text "a"⟩).addElement
    "author_tags" ⟨.int 1, .null, .text "b"⟩).addElement "author_tags" ⟨.int 2, .null, .text "a"⟩

def books : JoinNode := ⟨0, .root, "Author", "books", "books", .entity "Book"⟩

def tags : JoinNode := ⟨1, .root, "Author", "tags", "tags", .collection⟩

def tagged : Comparison :=
  ⟨.attr ⟨.join 1, .element⟩, .eq, false, false, .literal (.text "a")⟩

def counted : Operand := .aggregate .countDistinct ⟨.join 0, .attribute "id" "id"⟩

/-- Authors of two books with the tag `a`. -/
def twoBooks : CompiledFilter :=
  ⟨some (.and (.leaf ⟨counted, .eq, false, false, .literal (.int 2)⟩) (.leaf tagged)),
    [books, tags], true, []⟩

def twoBooksEvaluator : Evaluator :=
  ⟨stock, [books, tags], [.link "Book" (.foreignKey "author" "author_id"), .elements "author_tags"]⟩

def twoBooksText : String := "count\x7bbooks\x7d:2 and tags:a"

def counting : Word := .plain "count\x7bbooks\x7d:2"

def tagging : Word := .plain "tags:a"

theorem scanned_twoBooks : scan twoBooksText =
    .ok [.word 0 counting, .word 15 (.plain "and"), .word 19 tagging] := by rfl

theorem parsed_counting : Expression.parse counting =
    .ok ⟨"books", some .count, .eq, false, false, .literal "2"⟩ := by rfl

theorem parsed_tagging : Expression.parse tagging =
    .ok ⟨"tags", none, .eq, false, false, .literal "a"⟩ := by rfl

theorem compiled_twoBooks : schema.compileFilter false twoBooksText "Author" = .ok twoBooks := by
  have words : Formula.ofWords [.word 0 counting, .word 15 (.plain "and"), .word 19 tagging] =
      .ok (some (.and (.leaf counting) (.leaf tagging))) := by rfl
  exact Schema.compileFilter_and rfl scanned_twoBooks words
    (Schema.compileWord_eq_ok parsed_counting rfl) (Schema.compileWord_eq_ok parsed_tagging rfl)

end Bookshelf

open Bookshelf in
/-- The two books of the author are counted as two, though each is read once for each tag. -/
theorem counts_members_shelf :
    (twoBooksEvaluator.expand writer).length = 4 ∧
      groupOperand writer (twoBooksEvaluator.expand writer) counted = .one (.int 2) := by
  have own : ∀ a ∈ twoBooks.groupBy, a.source = .root := by simp [twoBooks]
  have evaluated : Evaluator.of stock schema (.ofFilter "Author" twoBooks) =
      .ok twoBooksEvaluator := by rfl
  obtain ⟨e, tokens, he, htokens, counts⟩ := counts_members compiled_twoBooks own evaluated
  cases he.symm.trans (rfl : schema.entity "Author" = .ok author)
  cases htokens.symm.trans scanned_twoBooks
  obtain ⟨⟨x, hx, count, _⟩, _⟩ := List.forall₂_cons.mp (counts writer).2
  cases hx.symm.trans parsed_counting
  have leads : schema.LeadsTo author (Path.segments "books") book :=
    .inl ⟨by decide +kernel, by decide +kernel⟩
  have two : (stock.memberKeys schema author "books" book writer).toFinset.card = 2 := by
    decide +kernel
  refine ⟨by decide +kernel, ?_⟩
  rw [← show (Int64.ofNat 2) = 2 from rfl, ← two]
  exact (count book rfl leads).1

end Evaluator

end EntityQuery
