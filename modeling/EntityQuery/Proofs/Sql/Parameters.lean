import EntityQuery.Proofs.Sql.Refinement
import EntityQuery.Sql.Statement

/-!
# Values stay out of the text

The values that a selection compares with are sent beside the statement, and in the text there is
only a placeholder for each of them. So **the text of a statement, and how many values are sent with
it, are those of the selection whose values have been cleared** (`Selection.cleared`,
`text_keeps_values_out`): of a list nothing is left but whether it is empty, and of a literal
nothing at all.

The text and the number of values are the shape of a fragment, which its pieces without values
determine (`shape_of_cleared`). Shapes are compared from the inside out: of fragments, of conditions
one comparison after the other (`ofComparison_cleared`, `ofGroup_cleared`), and of statements
(`select_cleared`, `count_cleared`).
-/

namespace EntityQuery

/-! ## Clearing values -/

/-- The operand without the values in it; a list stays empty, or stays a list with an item. -/
def Operand.cleared : Operand → Operand
  | literal _ => literal .null
  | list vs => list (if vs.isEmpty then [] else [.null])
  | o => o

/-- The comparison without the values in it. -/
def Comparison.cleared (c : Comparison) : Comparison :=
  { c with left := c.left.cleared, right := c.right.cleared }

/-- The predicate without the values in it. -/
def Predicate.cleared (p : Predicate) : Predicate := p.map Comparison.cleared

/-- The selection without the values in its predicate. -/
def Selection.cleared (q : Selection) : Selection :=
  { q with predicate := q.predicate.map Predicate.cleared }

theorem Operand.isAggregate_cleared (o : Operand) : o.cleared.isAggregate = o.isAggregate := by
  cases o <;> rfl

theorem Predicate.isAggregate_cleared (p : Predicate) : p.cleared.isAggregate = p.isAggregate := by
  have leaf (c : Comparison) : c.cleared.isAggregate = c.isAggregate := by
    rw [Comparison.isAggregate, Comparison.isAggregate, Comparison.cleared,
      Operand.isAggregate_cleared, Operand.isAggregate_cleared]
  unfold isAggregate
  rw [Formula.any_eq_any_leaves, Formula.any_eq_any_leaves, cleared, Formula.leaves_map,
    List.any_map]
  exact congrArg (p.leaves.any ·) (funext leaf)

theorem bind_map_congr {ε α β γ δ : Type} {x y : Except ε α} {f : α → γ} {k l : α → Except ε β}
    {g : β → δ} (first : x.map f = y.map f)
    (next : ∀ a b, f a = f b → (k a).map g = (l b).map g) :
    (x >>= k).map g = (y >>= l).map g := by
  cases x with
  | error e =>
    cases y with
    | error e' =>
      cases first
      rfl
    | ok b => cases first
  | ok a =>
    cases y with
    | error e => cases first
    | ok b => exact next a b (Except.ok.inj first)

/-- What comes after the same check need not agree on anything but its outcome. -/
theorem map_bind_congr {ε α β δ : Type} {x : Except ε α} {k l : α → Except ε β} {g : β → δ}
    (next : ∀ a, (k a).map g = (l a).map g) : (x >>= k).map g = (x >>= l).map g :=
  bind_map_congr (f := id) rfl fun a b h => by
    obtain rfl : a = b := h
    exact next a

theorem ite_congr_under {α β : Type} (f : α → β) {P : Prop} [Decidable P] {x x' y y' : α}
    (hx : f x = f x') (hy : f y = f y') : f (if P then x else y) = f (if P then x' else y') := by
  by_cases h : P
  · rw [if_pos h, if_pos h]
    exact hx
  · rw [if_neg h, if_neg h]
    exact hy

namespace Sql

/-- The piece without the value that is sent for it. -/
def Piece.cleared : Piece → Piece
  | text s => text s
  | placeholder _ => placeholder (.scalar .null)
  | unused _ => unused (.scalar .null)

namespace Fragment

/-- The fragment without the values that are sent beside it. -/
def cleared (f : Fragment) : Fragment := f.map Piece.cleared

theorem append_congr {f f' g g' : Fragment} (hf : f.cleared = f'.cleared)
    (hg : g.cleared = g'.cleared) : (f ++ g).cleared = (f' ++ g').cleared := by
  unfold cleared at hf hg ⊢
  rw [List.map_append, List.map_append, hf, hg]

theorem textFrom_cleared (f : Fragment) (used : Nat) :
    textFrom used f.cleared = textFrom used f := by
  induction f generalizing used with
  | nil => rfl
  | cons p f ih => cases p <;> simp [cleared, Piece.cleared, textFrom, ← ih]

theorem length_binds_cleared (f : Fragment) : f.cleared.binds.length = f.binds.length := by
  induction f with
  | nil => rfl
  | cons p f ih =>
    cases p with
    | text s => exact ih
    | placeholder b => exact congrArg (· + 1) ih
    | unused b => exact congrArg (· + 1) ih

/-- Values that stand nowhere in the text are as many as before. -/
theorem cleared_hidden (f : Fragment) : f.hidden.cleared = f.cleared.hidden := by
  induction f with
  | nil => rfl
  | cons p f ih =>
    cases p with
    | text s => exact ih
    | placeholder b => exact congrArg (_ :: ·) ih
    | unused b => exact congrArg (_ :: ·) ih

/-- Fragments that differ in the values only have one text, and are sent with equally many. -/
theorem shape_of_cleared {f g : Fragment} (h : f.cleared = g.cleared) :
    (f.text, f.binds.length) = (g.text, g.binds.length) := by
  rw [text, text, ← textFrom_cleared f, ← textFrom_cleared g, ← length_binds_cleared f,
    ← length_binds_cleared g, h]

end Fragment

/-! ## Terms, patterns and conditions -/

open Fragment (append_congr cleared_hidden)

variable (s : Schema) (joins : Joins)

/-- The pieces of a term without values. -/
def Term.shape (t : Term) : Fragment := t.fragment.cleared

/-- The pieces of a pattern without values. -/
def Pattern.shape (ignoreCase : Bool) (p : Pattern) : Fragment := (p.fragment ignoreCase).cleared

/-- The pieces of a condition without values. -/
def Condition.shape (c : Condition) : Fragment := c.fragment.cleared

theorem lowered_congr (ignoreCase : Bool) {f f' : Fragment} (h : f.cleared = f'.cleared) :
    (lowered ignoreCase f).cleared = (lowered ignoreCase f').cleared := by
  cases ignoreCase with
  | false => exact h
  | true => exact append_congr (append_congr rfl h) rfl

theorem Term.ofOperand_cleared (o : Operand) :
    (Term.ofOperand s joins o.cleared).map shape = (Term.ofOperand s joins o).map shape := by
  cases o <;> rfl

/-- What a pattern looks for is a value too, with the wildcards and the escapes in it. -/
theorem Pattern.shape_text (ignoreCase : Bool) (needle : String) :
    (Pattern.text needle).shape ignoreCase = [.placeholder (.scalar .null)] := rfl

theorem Pattern.shape_term (ignoreCase anyBefore anyAfter : Bool) {t t' : Term}
    (h : t.shape = t'.shape) :
    (Pattern.term t anyBefore anyAfter).shape ignoreCase =
      (Pattern.term t' anyBefore anyAfter).shape ignoreCase :=
  append_congr (append_congr rfl (lowered_congr ignoreCase h)) rfl

theorem Pattern.ofOperand_cleared (operator : Operator) (ignoreCase : Bool) (o : Operand) :
    (Pattern.ofOperand s joins operator o.cleared).map (shape ignoreCase) =
      (Pattern.ofOperand s joins operator o).map (shape ignoreCase) := by
  cases o with
  | literal v => simp only [Operand.cleared, ofOperand, Except.map, shape_text]
  | attr a | aggregate f a | list vs | none =>
    exact bind_map_congr (Term.ofOperand_cleared s joins _) fun t t' h =>
      congrArg Except.ok (shape_term ignoreCase _ _ h)

namespace Condition

theorem shape_isNull {t t' : Term} (h : t.shape = t'.shape) :
    (isNull t).shape = (isNull t').shape :=
  append_congr h rfl

theorem shape_never {t t' : Term} (h : t.shape = t'.shape) :
    (never t).shape = (never t').shape := by
  refine append_congr ?_ rfl
  rw [cleared_hidden, cleared_hidden]
  exact congrArg Fragment.hidden h

theorem shape_anyOf {t t' array array' : Term} (h : t.shape = t'.shape)
    (harray : array.shape = array'.shape) : (anyOf t array).shape = (anyOf t' array').shape :=
  append_congr (append_congr (append_congr h rfl) harray) rfl

theorem shape_notDistinct {a a' b b' : Term} (ha : a.shape = a'.shape) (hb : b.shape = b'.shape) :
    (notDistinct a b).shape = (notDistinct a' b').shape :=
  append_congr (append_congr ha rfl) hb

theorem shape_compare (r : Relation) {a a' b b' : Term} (ha : a.shape = a'.shape)
    (hb : b.shape = b'.shape) : (compare r a b).shape = (compare r a' b').shape :=
  append_congr (append_congr ha rfl) hb

theorem shape_like (ignoreCase : Bool) {t t' : Term} {p p' : Pattern} (ht : t.shape = t'.shape)
    (hp : p.shape ignoreCase = p'.shape ignoreCase) :
    (like ignoreCase t p).shape = (like ignoreCase t' p').shape := by
  have lowered := lowered_congr ignoreCase ht
  exact append_congr (append_congr (append_congr lowered rfl) hp) rfl

theorem shape_not {a a' : Condition} (h : a.shape = a'.shape) :
    (not a).shape = (not a').shape :=
  append_congr (append_congr rfl h) rfl

theorem shape_and {a a' b b' : Condition} (ha : a.shape = a'.shape) (hb : b.shape = b'.shape) :
    (and a b).shape = (and a' b').shape :=
  append_congr (append_congr (append_congr (append_congr rfl ha) rfl) hb) rfl

theorem shape_or {a a' b b' : Condition} (ha : a.shape = a'.shape) (hb : b.shape = b'.shape) :
    (or a b).shape = (or a' b').shape :=
  append_congr (append_congr (append_congr (append_congr rfl ha) rfl) hb) rfl

theorem shape_someRow {a a' : Condition} (h : a.shape = a'.shape) :
    (someRow a).shape = (someRow a').shape :=
  append_congr (append_congr rfl h) rfl

theorem ofPositive_cleared (c : Comparison) :
    (ofPositive s joins c.cleared).map shape = (ofPositive s joins c).map shape := by
  have left := Term.ofOperand_cleared s joins c.left
  have right := Term.ofOperand_cleared s joins c.right
  by_cases notNull : c.operator = .isNull
  · obtain ⟨l, _, negate, nullSafe, r⟩ := c
    subst notNull
    exact bind_map_congr left fun t t' h => congrArg Except.ok (shape_isNull h)
  by_cases notIn : c.operator = .isIn
  · obtain ⟨l, _, negate, nullSafe, r⟩ := c
    subst notIn
    have any : (do
          let t ← Term.ofOperand s joins l.cleared
          return anyOf t (← Term.ofOperand s joins r.cleared) : Except Error Condition).map shape =
        (do
          let t ← Term.ofOperand s joins l
          return anyOf t (← Term.ofOperand s joins r) : Except Error Condition).map shape :=
      bind_map_congr left fun t t' h => bind_map_congr right fun u u' h' =>
        congrArg Except.ok (shape_anyOf h h')
    -- Whether a list is empty decides on the condition; what is in it does not.
    cases r with
    | list vs =>
      cases vs with
      | nil => exact bind_map_congr left fun t t' h => congrArg Except.ok (shape_never h)
      | cons v vs => exact any
    | attr a | aggregate f a | literal v | none => exact any
  rw [ofPositive_of_ne notNull notIn, ofPositive_of_ne (c := c.cleared) notNull notIn]
  refine bind_map_congr left fun t t' h => ?_
  refine ite_congr_under (Except.map shape) ?notDistinct (ite_congr_under _ ?like ?compare)
  case notDistinct =>
    exact bind_map_congr right fun u u' h' => congrArg Except.ok (shape_notDistinct h h')
  case like =>
    exact bind_map_congr (Pattern.ofOperand_cleared s joins c.operator _ c.right)
      fun p p' h' => congrArg Except.ok (shape_like _ h h')
  case compare =>
    exact bind_map_congr right fun u u' h' => congrArg Except.ok (shape_compare _ h h')

theorem ofComparison_cleared (c : Comparison) :
    (ofComparison s joins c.cleared).map shape = (ofComparison s joins c).map shape :=
  bind_map_congr (ofPositive_cleared s joins c) fun _ _ h =>
    congrArg Except.ok (ite_congr_under shape (shape_not h) h)

theorem ofRow_cleared (p : Predicate) :
    (ofRow s joins p.cleared).map shape = (ofRow s joins p).map shape := by
  induction p with
  | and a b iha ihb =>
    exact bind_map_congr iha fun c c' h => bind_map_congr ihb fun d d' h' =>
      congrArg Except.ok (shape_and h h')
  | or a b iha ihb =>
    exact bind_map_congr iha fun c c' h => bind_map_congr ihb fun d d' h' =>
      congrArg Except.ok (shape_or h h')
  | not a ih => exact bind_map_congr ih fun c c' h => congrArg Except.ok (shape_not h)
  | leaf c => exact ofComparison_cleared s joins c

/-- The same parts of a predicate speak of groups, and the same ones of rows. -/
theorem ofGroup_cleared (p : Predicate) :
    (ofGroup s joins p.cleared).map shape = (ofGroup s joins p).map shape := by
  have row (p : Predicate) : (do return someRow (← ofRow s joins p.cleared)).map shape =
      (do return someRow (← ofRow s joins p)).map shape :=
    bind_map_congr (ofRow_cleared s joins p) fun c c' h => congrArg Except.ok (shape_someRow h)
  induction p with
  | and a b iha ihb =>
    unfold ofGroup
    rw [Predicate.isAggregate_cleared]
    split
    · exact bind_map_congr iha fun c c' h => bind_map_congr ihb fun d d' h' =>
        congrArg Except.ok (shape_and h h')
    · exact row (.and a b)
  | or a b iha ihb =>
    unfold ofGroup
    rw [Predicate.isAggregate_cleared]
    split
    · exact bind_map_congr iha fun c c' h => bind_map_congr ihb fun d d' h' =>
        congrArg Except.ok (shape_or h h')
    · exact row (.or a b)
  | not a ih =>
    unfold ofGroup
    rw [Predicate.isAggregate_cleared]
    split
    · exact bind_map_congr ih fun c c' h => congrArg Except.ok (shape_not h)
    · exact row (.not a)
  | leaf c =>
    unfold ofGroup
    rw [Predicate.isAggregate_cleared]
    split
    · exact ofComparison_cleared s joins c
    · exact row (.leaf c)

end Condition

/-! ## Statements -/

/-- The pieces of a restriction without values. -/
def Restriction.shape (r : Restriction) : Fragment := r.fragment.cleared

theorem Restriction.shape_rows {c c' : Condition} (h : c.shape = c'.shape) :
    (rows c).shape = (rows c').shape :=
  congrArg (_ :: ·) h

theorem Restriction.shape_identifiers (id : ColumnRef) (table : String)
    (clauses : List JoinClause) (grouping : Option (List ColumnRef)) {c c' : Condition}
    (h : c.shape = c'.shape) :
    (identifiers ⟨id, table, clauses, grouping, c⟩).shape =
      (identifiers ⟨id, table, clauses, grouping, c'⟩).shape := by
  have subquery : (Subquery.fragment ⟨id, table, clauses, grouping, c⟩).cleared =
      (Subquery.fragment ⟨id, table, clauses, grouping, c'⟩).cleared :=
    append_congr rfl h
  exact append_congr (append_congr rfl subquery) rfl

/-- Which joins and groups there are, and whether there is a subquery at all, does not depend on
values. -/
theorem restriction_cleared (e : Entity) (q : Selection) :
    (restriction s e q.cleared).map Restriction.shape =
      (restriction s e q).map Restriction.shape := by
  obtain ⟨entity, joins, predicate, aggregate, groupBy, order, limit, offset⟩ := q
  cases predicate with
  | none => rfl
  | some p =>
    have row := Condition.ofRow_cleared s joins p
    have group := Condition.ofGroup_cleared s joins p
    refine ite_congr_under (Except.map Restriction.shape) ?rows ?identifiers
    case rows =>
      exact bind_map_congr row fun c c' h => congrArg Except.ok (Restriction.shape_rows h)
    refine map_bind_congr fun clauses => ?_
    refine ite_congr_under (Except.map Restriction.shape) ?groups ?plain
    case groups =>
      refine map_bind_congr fun columns => bind_map_congr group fun c c' h =>
        congrArg Except.ok (Restriction.shape_identifiers _ _ _ _ h)
    case plain =>
      exact bind_map_congr row fun c c' h =>
        congrArg Except.ok (Restriction.shape_identifiers _ _ _ _ h)

namespace Statement

/-- The text of a statement, and how many values are sent with it. -/
def shape (q : Statement) : String × Nat := (q.text, q.binds.length)

/-- A statement with another restriction has the same shape if the restriction has. -/
theorem shape_of_restriction {q q' : Statement}
    (same : q' = { q with restriction := q'.restriction })
    (h : q.restriction.shape = q'.restriction.shape) : q.shape = q'.shape := by
  refine Fragment.shape_of_cleared ?_
  rw [same]
  exact append_congr (append_congr rfl h) rfl

theorem select_cleared (q : Selection) :
    (select s q.cleared).map shape = (select s q).map shape :=
  map_bind_congr fun e => map_bind_congr fun _ =>
    bind_map_congr (restriction_cleared s e q) fun _ _ h =>
      congrArg Except.ok (shape_of_restriction rfl h)

theorem count_cleared (q : Selection) :
    (count s q.cleared).map shape = (count s q).map shape :=
  map_bind_congr fun e => bind_map_congr (restriction_cleared s e q) fun _ _ h =>
    congrArg Except.ok (shape_of_restriction rfl h)

/-- Which related records are asked for by their owners' keys, how many of these there are, and
what they are, is not in the text. -/
theorem related_keys (q : RelatedQuery) {keys : List Value} (hq : q.keys ≠ []) (h : keys ≠ []) :
    (related s { q with keys := keys }).map text = (related s q).map text := by
  refine map_bind_congr fun target => map_bind_congr fun columns => congrArg Except.ok ?_
  have restrictions (c : ColumnRef) :
      Restriction.shape (.rows (if keys.isEmpty then .never .null
        else .anyOf (.column c) (.parameter (.ofList keys)))) =
      Restriction.shape (.rows (if q.keys.isEmpty then .never .null
        else .anyOf (.column c) (.parameter (.ofList q.keys)))) := by
    rw [if_neg (by simpa using h), if_neg (by simpa using hq)]
    rfl
  show (shape _).1 = (shape _).1
  exact congrArg Prod.fst (shape_of_restriction rfl (restrictions _))

/-- **No value is in the text of a statement.** Selections that differ in nothing but the values
they compare with have one text, and are sent with equally many values, both where records are
selected and where they are counted; and related records are asked for in one text whatever their
keys are. -/
theorem text_keeps_values_out (s : Schema) :
    (∀ q q' : Selection, q.cleared = q'.cleared →
      (select s q).map shape = (select s q').map shape ∧
        (count s q).map shape = (count s q').map shape) ∧
    ∀ (r : RelatedQuery) (keys : List Value), r.keys ≠ [] → keys ≠ [] →
      (related s { r with keys := keys }).map text = (related s r).map text := by
  constructor
  · intro q q' same
    rw [← select_cleared s q, ← select_cleared s q', ← count_cleared s q, ← count_cleared s q',
      same]
    exact ⟨rfl, rfl⟩
  · exact fun r keys => related_keys s r

end Statement

namespace Pets

/-- Persons with a text in their name and more than so many pets. -/
def asking (part : String) (pets : Int64) : Selection :=
  .ofFilter "Person" { filter with
    predicate := some (.and
      (.leaf ⟨.attr ⟨.root, .attribute "name" "name"⟩, .iContains, false, false,
        .literal (.text part)⟩)
      (.leaf ⟨.aggregate .countDistinct ⟨.join 0, .attribute "id" "id"⟩, .gt, false, false,
        .literal (.int pets)⟩)) }

/-- The pets of these persons. -/
def petsOf (keys : List Value) : RelatedQuery :=
  ⟨"Person", "pets", "Pet", .foreignKey "owner" "owner_id", keys, [], none, 0⟩

end Pets

open Pets in
theorem text_keeps_values_out_pets :
    (Statement.select schema (asking "x" 1)).map Statement.shape =
      (Statement.select schema (asking "' OR true --" 5)).map Statement.shape ∧
    (Statement.count schema (asking "x" 1)).map Statement.shape =
      (Statement.count schema (asking "' OR true --" 5)).map Statement.shape ∧
    (Statement.related schema (petsOf [.int 1, .int 2])).map Statement.text =
      (Statement.related schema (petsOf [.text "' OR true --"])).map Statement.text ∧
    Succeeds (Statement.select schema (asking "' OR true --" 5)) := by
  obtain ⟨selections, related⟩ := Statement.text_keeps_values_out schema
  obtain ⟨selected, counted⟩ := selections (asking "x" 1) (asking "' OR true --" 5) rfl
  refine ⟨selected, counted, ?_, ⟨_, rfl⟩⟩
  exact related (petsOf [.text "' OR true --"]) [.int 1, .int 2] (by simp [petsOf]) (by simp)

end Sql

end EntityQuery
