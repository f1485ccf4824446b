import EntityQuery.Proofs.Sql.Lexemes
import EntityQuery.Sql.Statement
import Mathlib

/-!
# How expressions are read

The lexemes of a condition are an expression, and which one it is depends on what binds more
tightly. `Expr.ofItems?` reads a row of items, each a lexeme or a group that stood in parentheses
and has been read already, by the rules of the dialect: the row is cut at what binds least. That is
`OR`, then `AND`, then a `NOT` in front, then `IS`, then the comparisons, then `LIKE` with its
`ESCAPE`, and most tightly of all binds `||`. What remains is a constant, a column, a group or a
function applied to one. A row that cannot be read in this way to its end is no expression.

Two facts about a row are enough to put it into a larger one. An **operand** (`IsOperand`) is an
expression without any connective weaker than `||`, so that it is cut nowhere by a comparison or a
test around it; a **factor** (`IsFactor`) is an expression without an `AND` or `OR` outside
parentheses, so that a conjunction or disjunction can be made of it and another
(`IsFactor.and`, `IsFactor.or`). Every test of operands is a factor, and so is every group.
-/

namespace EntityQuery.Sql

/-! ## Expressions and items -/

/-- An expression, as a database reads it. -/
inductive Expr where
  | column (c : ColumnRef)
  | parameter (n : Nat)
  | string (s : List Char)
  | null
  | never
  | lower (e : Expr)
  | aggregate (f : Aggregate) (e : Expr)
  /-- Whether the condition holds of some row of the group. -/
  | someRow (e : Expr)
  | concat (a b : Expr)
  | like (e pattern escape : Expr)
  | compare (r : Relation) (a b : Expr)
  | anyOf (e array : Expr)
  | isNull (e : Expr)
  | notDistinct (a b : Expr)
  | not (e : Expr)
  | and (a b : Expr)
  | or (a b : Expr)
deriving DecidableEq

/-- A table that is joined where two columns are equal. -/
structure Joined where
  required : Bool
  table : String
  row : Alias
  left : ColumnRef
  right : ColumnRef
deriving DecidableEq

/-- A statement, as a database reads it; `Restricting` is what its rows can be restricted by. -/
structure Query (Restricting : Type) where
  outputs : List Output
  table : String
  joins : List Joined
  restriction : Option Restricting
  grouping : Option (List ColumnRef)
  having : Option Expr
  order : List OrderTerm
  limit : Option Nat
  offset : Option Nat

/-- What stands in parentheses. -/
inductive Group where
  | expr (e : Expr)
  /-- An argument of which equal values count once. -/
  | distinct (e : Expr)
  /-- All rows. -/
  | all
  | query (q : Query Expr)

/-- A lexeme that is no parenthesis, or what stands in a pair of them. -/
inductive Item where
  | lexeme (l : Lexeme)
  | group (g : Group)

/-- The relation that is written so. -/
def relationOf? : List Char → Option Relation
  | ['='] => some .eq
  | ['>'] => some .gt
  | ['<'] => some .lt
  | ['>', '='] => some .gte
  | ['<', '='] => some .lte
  | _ => none

namespace Item

@[match_pattern] abbrev keyword (k : Keyword) : Item := lexeme (.keyword k)

@[match_pattern] abbrev word (s : List Char) : Item := lexeme (.word s)

@[match_pattern] abbrev mark (s : List Char) : Item := lexeme (.mark s)

def isKeyword (k : Keyword) : Item → Bool
  | keyword k' => k = k'
  | _ => false

/-- Whether two texts are to be put together. -/
def isConcat : Item → Bool
  | mark s => s = ['|', '|']
  | _ => false

def relation? : Item → Option Relation
  | mark s => relationOf? s
  | _ => none

/-- Whether the item begins a clause of a statement. -/
def beginsClause (i : Item) : Bool :=
  i.isKeyword .where' || i.isKeyword .group || i.isKeyword .having || i.isKeyword .order ||
    i.isKeyword .limit || i.isKeyword .offset

/-- Whether the item ends a factor of a condition. -/
def endsFactor (i : Item) : Bool := i.isKeyword .and || i.isKeyword .or || i.beginsClause

/-- Whether something other than an expression begins with the item. -/
def opensOther : Item → Bool
  | keyword .distinct | keyword .select => true
  | mark s => s = ['*']
  | _ => false

/-- Whether the item cannot stand in an operand. -/
def isLoose (i : Item) : Bool :=
  i.endsFactor || i.isKeyword .not || i.isKeyword .is || i.relation?.isSome ||
    i.isKeyword .like || i.isKeyword .escape || i.opensOther

end Item

/-- What stands before the first item of a kind, the item, and what stands after it. -/
def cutAt? {α : Type} (kind : α → Bool) : List α → Option (List α × α × List α)
  | [] => none
  | a :: l => if kind a then some ([], a, l) else (cutAt? kind l).map fun p => (a :: p.1, p.2)

namespace Expr

/-- A function applied to a group. -/
def applied? : List Char → Group → Option Expr
  | ['l', 'o', 'w', 'e', 'r'], .expr e => some (.lower e)
  | ['b', 'o', 'o', 'l', '_', 'o', 'r'], .expr e => some (.someRow e)
  | ['c', 'o', 'u', 'n', 't'], .expr e => some (.aggregate .count e)
  | ['c', 'o', 'u', 'n', 't'], .distinct e => some (.aggregate .countDistinct e)
  | ['a', 'v', 'g'], .expr e => some (.aggregate .avg e)
  | ['s', 'u', 'm'], .expr e => some (.aggregate .sum e)
  | ['m', 'a', 'x'], .expr e => some (.aggregate .max e)
  | ['m', 'i', 'n'], .expr e => some (.aggregate .min e)
  | _, _ => none

/-- What no connective cuts. -/
def primary? : List Item → Option Expr
  | [.lexeme (.parameter n)] => some (.parameter n)
  | [.lexeme (.string s)] => some (.string s)
  | [.keyword .null] => some .null
  | [.keyword .false] => some .never
  | [.word w, .lexeme .dot, .lexeme (.name c)] =>
    (Alias.read? w).map fun row => .column ⟨row, .ofList c⟩
  | [.group (.expr e)] => some e
  | [.word f, .group g] => applied? f g
  | _ => none

/-- Operands between separators, put together from the left. -/
def chain? (separates : Item → Bool) (combine : Expr → Expr → Expr)
    (operand? : List Item → Option Expr) (items : List Item) : Option Expr := do
  match ← (items.splitOnP separates).mapM operand? with
  | [] => none
  | e :: es => return es.foldl combine e

def concat? : List Item → Option Expr := chain? Item.isConcat .concat primary?

/-- A match with a pattern and the character by which its marks are escaped. -/
def like? (items : List Item) : Option Expr :=
  match cutAt? (Item.isKeyword .like) items with
  | none => concat? items
  | some (e, _, rest) => do
    let (pattern, _, escape) ← cutAt? (Item.isKeyword .escape) rest
    return .like (← concat? e) (← concat? pattern) (← concat? escape)

/-- A comparison of two values, or of a value with those of an array. -/
def compared? (items : List Item) : Option Expr :=
  match cutAt? (fun i => i.relation?.isSome) items with
  | none => like? items
  | some (a, i, b) => do
    let r ← i.relation?
    match r, b with
    | .eq, [.keyword .any, .group (.expr array)] => return .anyOf (← like? a) array
    | r, b => return .compare r (← like? a) (← like? b)

/-- A test for null, or an equality in which null equals null. -/
def tested? (items : List Item) : Option Expr :=
  match cutAt? (Item.isKeyword .is) items with
  | none => compared? items
  | some (a, _, [.keyword .null]) => do return .isNull (← compared? a)
  | some (a, _, .keyword .not :: .keyword .distinct ::
      .keyword .from' :: b) => do return .notDistinct (← compared? a) (← compared? b)
  | some _ => none

def negated? : List Item → Option Expr
  | .keyword .not :: items => (negated? items).map .not
  | items => tested? items

/-- The expression that the items are. -/
def ofItems? : List Item → Option Expr :=
  chain? (Item.isKeyword .or) .or (chain? (Item.isKeyword .and) .and negated?)

end Expr

/-! ## Cutting -/

section

variable {α : Type} {kind : α → Bool} {a : List α}

theorem cutAt?_eq_none (h : ∀ i ∈ a, kind i = false) : cutAt? kind a = none := by
  induction a with
  | nil => rfl
  | cons i a ih =>
    obtain ⟨hi, ha⟩ := List.forall_mem_cons.mp h
    simp [cutAt?, hi, ih ha]

theorem cutAt?_append_cons (h : ∀ i ∈ a, kind i = false) {i : α} (hi : kind i = true)
    (rest : List α) : cutAt? kind (a ++ i :: rest) = some (a, i, rest) := by
  induction a with
  | nil => simp [cutAt?, hi]
  | cons j a ih =>
    obtain ⟨hj, ha⟩ := List.forall_mem_cons.mp h
    simp [cutAt?, hj, ih ha]

end

namespace Expr

variable {separates : Item → Bool} {combine : Expr → Expr → Expr}
  {operand? : List Item → Option Expr} {a b : List Item} {e e' : Expr} {i : Item}

theorem chain?_single (ha : ∀ i ∈ a, separates i = false) :
    chain? separates combine operand? a = operand? a := by
  unfold chain?
  rw [List.splitOnP_eq_singleton ha]
  cases he : operand? a <;> simp [he]

/-- Another operand at the end of a chain. -/
theorem chain?_append (ha : chain? separates combine operand? a = some e)
    (hi : separates i = true) (hb : ∀ i ∈ b, separates i = false) (he : operand? b = some e') :
    chain? separates combine operand? (a ++ i :: b) = some (combine e e') := by
  obtain ⟨es, hes, first⟩ := Option.bind_eq_some_iff.mp ha
  cases es with
  | nil => cases first
  | cons e₀ es =>
    cases first
    unfold chain?
    rw [List.splitOnP_append_cons a b hi, List.splitOnP_eq_singleton hb, List.mapM_append]
    simp [hes, he]

end Expr

variable {a b p : List Item} {e e' e'' : Expr} {i : Item}

/-! ## Operands -/

/-- The items are an expression that no connective but `||` cuts. -/
structure IsOperand (items : List Item) (e : Expr) : Prop where
  plain : ∀ i ∈ items, i.isLoose = false
  read : Expr.concat? items = some e

theorem Item.of_isLoose (h : i.isLoose = false) :
    i.endsFactor = false ∧ i.isKeyword .not = false ∧ i.isKeyword .is = false ∧
      i.relation?.isSome = false ∧ i.isKeyword .like = false ∧ i.isKeyword .escape = false ∧
        i.opensOther = false := by
  simpa [isLoose, and_assoc] using h

theorem Item.of_endsFactor (h : i.endsFactor = false) :
    i.isKeyword .and = false ∧ i.isKeyword .or = false ∧ i.beginsClause = false := by
  simpa [endsFactor, and_assoc] using h

namespace IsOperand

theorem undivided (h : IsOperand a e) : ∀ i ∈ a, i.endsFactor = false :=
  fun i hi => (Item.of_isLoose (h.plain i hi)).1

theorem notIs (h : IsOperand a e) : ∀ i ∈ a, i.isKeyword .is = false :=
  fun i hi => (Item.of_isLoose (h.plain i hi)).2.2.1

theorem notRelation (h : IsOperand a e) : ∀ i ∈ a, i.relation?.isSome = false :=
  fun i hi => (Item.of_isLoose (h.plain i hi)).2.2.2.1

theorem notLike (h : IsOperand a e) : ∀ i ∈ a, i.isKeyword .like = false :=
  fun i hi => (Item.of_isLoose (h.plain i hi)).2.2.2.2.1

theorem notEscape (h : IsOperand a e) : ∀ i ∈ a, i.isKeyword .escape = false :=
  fun i hi => (Item.of_isLoose (h.plain i hi)).2.2.2.2.2.1

theorem like? (h : IsOperand a e) : Expr.like? a = some e := by
  unfold Expr.like?
  rw [cutAt?_eq_none h.notLike]
  exact h.read

theorem compared? (h : IsOperand a e) : Expr.compared? a = some e := by
  unfold Expr.compared?
  rw [cutAt?_eq_none h.notRelation]
  exact h.like?

end IsOperand

/-! ## Factors -/

/-- The items are an expression in which `AND` and `OR` stand in parentheses only. -/
structure IsFactor (items : List Item) (e : Expr) : Prop where
  first : ∀ i ∈ items.head?, i.opensOther = false
  undivided : ∀ i ∈ items, i.endsFactor = false
  read : Expr.negated? items = some e

namespace IsFactor

theorem notAnd (h : IsFactor a e) : ∀ i ∈ a, i.isKeyword .and = false :=
  fun i hi => (Item.of_endsFactor (h.undivided i hi)).1

theorem notOr (h : IsFactor a e) : ∀ i ∈ a, i.isKeyword .or = false :=
  fun i hi => (Item.of_endsFactor (h.undivided i hi)).2.1

theorem notClause (h : IsFactor a e) : ∀ i ∈ a, i.beginsClause = false :=
  fun i hi => (Item.of_endsFactor (h.undivided i hi)).2.2

theorem conjunct (h : IsFactor a e) :
    Expr.chain? (Item.isKeyword .and) .and Expr.negated? a = some e := by
  rw [Expr.chain?_single h.notAnd]
  exact h.read

theorem ofItems? (h : IsFactor a e) : Expr.ofItems? a = some e := by
  unfold Expr.ofItems?
  rw [Expr.chain?_single h.notOr]
  exact h.conjunct

/-- Two factors with `AND` between them. -/
theorem and (ha : IsFactor a e) (hb : IsFactor b e') :
    Expr.ofItems? (a ++ .keyword .and :: b) = some (.and e e') := by
  unfold Expr.ofItems?
  rw [Expr.chain?_single]
  · exact Expr.chain?_append ha.conjunct rfl hb.notAnd hb.read
  · exact List.forall_mem_append.mpr ⟨ha.notOr, List.forall_mem_cons.mpr ⟨rfl, hb.notOr⟩⟩

/-- Two factors with `OR` between them. -/
theorem or (ha : IsFactor a e) (hb : IsFactor b e') :
    Expr.ofItems? (a ++ .keyword .or :: b) = some (.or e e') :=
  Expr.chain?_append ha.ofItems? rfl hb.notOr hb.conjunct

/-- What stands in parentheses. -/
theorem group (e : Expr) : IsFactor [.group (.expr e)] e :=
  ⟨by rintro _ ⟨⟩; rfl, List.forall_mem_singleton.mpr rfl, rfl⟩

theorem not (e : Expr) : IsFactor [.keyword .not, .group (.expr e)] (.not e) :=
  ⟨by rintro _ ⟨⟩; rfl, List.forall_mem_cons.mpr ⟨rfl, (group e).undivided⟩, rfl⟩

theorem never : IsFactor [.keyword .false] .never :=
  ⟨by rintro _ ⟨⟩; rfl, List.forall_mem_singleton.mpr rfl, rfl⟩

theorem someRow (e : Expr) :
    IsFactor [.word ['b', 'o', 'o', 'l', '_', 'o', 'r'], .group (.expr e)] (.someRow e) :=
  ⟨by rintro _ ⟨⟩; rfl, List.forall_mem_cons.mpr ⟨rfl, (group e).undivided⟩, rfl⟩

end IsFactor

namespace IsOperand

/-- What an operand begins with. -/
theorem head (ha : IsOperand a e) (b : List Item) {P : Item → Prop}
    (own : ∀ i : Item, i.isLoose = false → P i) (next : ∀ i ∈ b.head?, P i) :
    ∀ i ∈ (a ++ b).head?, P i := by
  cases a with
  | nil => exact next
  | cons j a =>
    rintro _ ⟨⟩
    exact own j (ha.plain j List.mem_cons_self)

/-- What begins with an operand is a factor if it is a test. -/
theorem isFactor (ha : IsOperand a e)
    (first : ∀ i ∈ b.head?, i.isKeyword .not = false ∧ i.opensOther = false)
    (undivided : ∀ j ∈ b, j.endsFactor = false) (read : Expr.tested? (a ++ b) = some e') :
    IsFactor (a ++ b) e' where
  first := ha.head b (fun _ h => (Item.of_isLoose h).2.2.2.2.2.2) fun i hi => (first i hi).2
  undivided := List.forall_mem_append.mpr ⟨ha.undivided, undivided⟩
  read := by
    rw [← read]
    -- Only a `NOT` in front would be read otherwise.
    have first := ha.head b (P := fun i => i.isKeyword .not = false)
      (fun _ h => (Item.of_isLoose h).2.1) fun i hi => (first i hi).1
    unfold Expr.negated?
    split
    · next rest same =>
      rw [same] at first
      exact absurd (first _ rfl) (by decide)
    · rfl

/-- An operand by itself. -/
theorem alone (ha : IsOperand a e) : IsFactor a e := by
  have read : Expr.tested? a = some e := by
    unfold Expr.tested?
    rw [cutAt?_eq_none ha.notIs]
    exact ha.compared?
  rw [← List.append_nil a] at read ⊢
  exact ha.isFactor nofun nofun read

theorem isNull (ha : IsOperand a e) :
    IsFactor (a ++ [.keyword .is, .keyword .null]) (.isNull e) := by
  refine ha.isFactor (by rintro _ ⟨⟩; exact ⟨rfl, rfl⟩)
    (by simp [Item.endsFactor, Item.beginsClause, Item.isKeyword]) ?_
  unfold Expr.tested?
  rw [cutAt?_append_cons ha.notIs rfl]
  simp [ha.compared?]

theorem notDistinct (ha : IsOperand a e) (hb : IsOperand b e') :
    IsFactor (a ++ .keyword .is :: .keyword .not :: .keyword .distinct :: .keyword .from' :: b)
      (.notDistinct e e') := by
  refine ha.isFactor (by rintro _ ⟨⟩; exact ⟨rfl, rfl⟩) ?_ ?_
  · simp only [List.forall_mem_cons]
    exact ⟨rfl, rfl, rfl, rfl, hb.undivided⟩
  unfold Expr.tested?
  rw [cutAt?_append_cons ha.notIs rfl]
  simp [ha.compared?, hb.compared?]

/-- Where nothing is tested for null, the items are a comparison. -/
theorem tested?_eq_compared? (ha : IsOperand a e) (hb : ∀ j ∈ i :: b, j.isKeyword .is = false) :
    Expr.tested? (a ++ i :: b) = Expr.compared? (a ++ i :: b) := by
  unfold Expr.tested?
  rw [cutAt?_eq_none]
  exact List.forall_mem_append.mpr ⟨ha.notIs, hb⟩

theorem anyOf (ha : IsOperand a e) (array : Expr) :
    IsFactor (a ++ [.mark ['='], .keyword .any, .group (.expr array)]) (.anyOf e array) := by
  refine ha.isFactor (by rintro _ ⟨⟩; exact ⟨rfl, rfl⟩)
    (by simp [Item.endsFactor, Item.beginsClause, Item.isKeyword]) ?_
  rw [ha.tested?_eq_compared? (by simp [Item.isKeyword])]
  unfold Expr.compared?
  rw [cutAt?_append_cons ha.notRelation rfl]
  simp [Item.relation?, relationOf?, ha.like?]

theorem compare (ha : IsOperand a e) (hb : IsOperand b e') {s : List Char} {r : Relation}
    (hs : relationOf? s = some r) : IsFactor (a ++ .mark s :: b) (.compare r e e') := by
  have opens : (Item.mark s).opensOther = false := by
    refine decide_eq_false ?_
    rintro rfl
    cases hs
  refine ha.isFactor (by rintro _ ⟨⟩; exact ⟨rfl, opens⟩)
    (List.forall_mem_cons.mpr ⟨rfl, hb.undivided⟩) ?_
  rw [ha.tested?_eq_compared? (List.forall_mem_cons.mpr ⟨rfl, hb.notIs⟩)]
  unfold Expr.compared?
  rw [cutAt?_append_cons ha.notRelation (by simp [Item.relation?, hs])]
  simp only [Item.relation?, hs, Option.bind_eq_bind, Option.bind_some]
  split
  · next array =>
    -- `ANY` by itself is no expression.
    have read := hb.read
    rw [Expr.concat?, Expr.chain?_single (by simp [Item.isConcat])] at read
    cases read
  · simp [ha.like?, hb.like?]

theorem like (ha : IsOperand a e) (hp : IsOperand p e') (escape : List Char) :
    IsFactor (a ++ .keyword .like :: (p ++ [.keyword .escape, .lexeme (.string escape)]))
      (.like e e' (.string escape)) := by
  have after {P : Item → Prop} (first : P (.keyword .like)) (pattern : ∀ j ∈ p, P j)
      (word : P (.keyword .escape)) (last : P (.lexeme (.string escape))) :
      ∀ j ∈ .keyword .like :: (p ++ [.keyword .escape, .lexeme (.string escape)]), P j := by
    refine List.forall_mem_cons.mpr ⟨first, List.forall_mem_append.mpr ⟨pattern, ?_⟩⟩
    exact List.forall_mem_cons.mpr ⟨word, List.forall_mem_singleton.mpr last⟩
  have constant : Expr.concat? [.lexeme (.string escape)] = some (.string escape) := by
    rw [Expr.concat?, Expr.chain?_single (by simp [Item.isConcat])]
    rfl
  refine ha.isFactor (by rintro _ ⟨⟩; exact ⟨rfl, rfl⟩) (after rfl hp.undivided rfl rfl) ?_
  rw [ha.tested?_eq_compared? (after rfl hp.notIs rfl rfl)]
  unfold Expr.compared? Expr.like?
  rw [cutAt?_eq_none]
  · dsimp only
    rw [cutAt?_append_cons ha.notLike rfl]
    dsimp only
    rw [cutAt?_append_cons hp.notEscape rfl]
    simp [ha.read, hp.read, constant]
  · exact List.forall_mem_append.mpr ⟨ha.notRelation, after rfl hp.notRelation rfl rfl⟩

end IsOperand

/-! ## Terms -/

/-- The items are an expression that no connective cuts. -/
structure IsPrimary (items : List Item) (e : Expr) : Prop where
  plain : ∀ i ∈ items, i.isLoose = false ∧ i.isConcat = false
  read : Expr.primary? items = some e

namespace IsPrimary

theorem isOperand (h : IsPrimary a e) : IsOperand a e where
  plain i hi := (h.plain i hi).1
  read := by
    rw [Expr.concat?, Expr.chain?_single fun i hi => (h.plain i hi).2]
    exact h.read

theorem parameter (n : Nat) : IsPrimary [.lexeme (.parameter n)] (.parameter n) :=
  ⟨List.forall_mem_singleton.mpr ⟨rfl, rfl⟩, rfl⟩

theorem string (s : List Char) : IsPrimary [.lexeme (.string s)] (.string s) :=
  ⟨List.forall_mem_singleton.mpr ⟨rfl, rfl⟩, rfl⟩

theorem column (c : ColumnRef) :
    IsPrimary [.word c.row.text.toList, .lexeme .dot, .lexeme (.name c.column.toList)]
      (.column c) where
  plain := by
    simp only [List.forall_mem_cons]
    exact ⟨⟨rfl, rfl⟩, ⟨rfl, rfl⟩, ⟨rfl, rfl⟩, List.forall_mem_nil _⟩
  read := by
    show (Alias.read? c.row.text.toList).map _ = _
    rw [Alias.read?_text, Option.map_some, String.ofList_toList]

theorem null : IsPrimary [.keyword .null] .null :=
  ⟨List.forall_mem_singleton.mpr ⟨rfl, rfl⟩, rfl⟩

/-- A function applied to a group. -/
theorem applied {f : List Char} {g : Group} (h : Expr.applied? f g = some e) :
    IsPrimary [.word f, .group g] e :=
  ⟨List.forall_mem_cons.mpr ⟨⟨rfl, rfl⟩, List.forall_mem_singleton.mpr ⟨rfl, rfl⟩⟩, h⟩

end IsPrimary

/-- Another text at the end of an operand. -/
theorem IsOperand.concat (ha : IsOperand a e) (hb : IsPrimary b e') :
    IsOperand (a ++ .mark ['|', '|'] :: b) (.concat e e') where
  plain := List.forall_mem_append.mpr
    ⟨ha.plain, List.forall_mem_cons.mpr ⟨rfl, fun i hi => (hb.plain i hi).1⟩⟩
  read := Expr.chain?_append ha.read rfl (fun i hi => (hb.plain i hi).2) hb.read

end EntityQuery.Sql
