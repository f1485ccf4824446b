import EntityQuery.Proofs.Sql.Expressions

/-!
# How statements are read

A statement is read from its text in two passes. `lex` cuts the text into lexemes, and `gather` goes
through these once, with a stack of the parentheses that are open: what stands in a pair of them is
read as soon as it is closed (`Group.ofItems?`), and is a single item of what stands around it. A
row of items is a condition (`Expr.ofItems?`) or the clauses of a statement (`Clauses.ofItems?`),
each of which ends where the next begins and is read by itself (`Clauses.query?`). `Expr.read?` and
`Query.read?` are the two passes together: functions of the text and of nothing else.

A text *reads as* items (`Reads`) if it has lexemes that put these items onto any stack. Such texts
can be put next to each other where one is detached from the other (`Reads.append`), with words
between them (`Reads.between`), and into parentheses (`Reads.enclosed`), where they become one item.
The texts of conditions and of statements are read by these three facts.
-/

namespace EntityQuery.Sql

/-! ## Clauses -/

/-- The items after these keywords, if they begin with them. -/
def dropKeywords? : List Keyword → List Item → Option (List Item)
  | [], items => some items
  | k :: ks, .keyword k' :: items => if k = k' then dropKeywords? ks items else none
  | _ :: _, _ => none

/-- The clause that begins with these keywords, if it comes first, and the items after it. -/
def clause (ks : List Keyword) (items : List Item) : Option (List Item) × List Item :=
  match dropKeywords? ks items with
  | none => (none, items)
  | some rest =>
    (some (rest.takeWhile (!·.beginsClause)), rest.dropWhile (!·.beginsClause))

def Item.isComma : Item → Bool
  | lexeme .comma => true
  | _ => false

/-- The items between commas. -/
def commas (items : List Item) : List (List Item) :=
  if items.isEmpty then [] else items.splitOnP Item.isComma

def columnOf? : List Item → Option ColumnRef
  | [.word w, .lexeme .dot, .lexeme (.name c)] =>
    (Alias.read? w).map fun row => ⟨row, .ofList c⟩
  | _ => none

def outputOf? : List Item → Option Output
  | [.word w, .group .all] => if w = ['c', 'o', 'u', 'n', 't'] then some .count else none
  | [a, b, c, .keyword .as', .lexeme (.name n)] =>
    if n = ownerKey.toList then (columnOf? [a, b, c]).map .owner else none
  | items => (columnOf? items).map .column

def orderOf? : List Item → Option OrderTerm
  | [a, b, c, .keyword .asc] => (columnOf? [a, b, c]).map (⟨·, .ascending, false⟩)
  | [a, b, c, .keyword .desc] => (columnOf? [a, b, c]).map (⟨·, .descending, false⟩)
  | [a, b, c, .keyword .asc, .keyword .nulls, .keyword .last] =>
    (columnOf? [a, b, c]).map (⟨·, .ascending, true⟩)
  | [a, b, c, .keyword .desc, .keyword .nulls, .keyword .last] =>
    (columnOf? [a, b, c]).map (⟨·, .descending, true⟩)
  | _ => none

def numberOf? : List Item → Option Nat
  | [.lexeme (.number n)] => some n
  | _ => none

/-- A table joined on the equality of two columns. -/
def joinedOf? (required : Bool) (table row : List Char) (left right : List Item) :
    Option Joined := do
  return ⟨required, .ofList table, ← Alias.read? row, ← columnOf? left, ← columnOf? right⟩

def joinsOf? : List Item → Option (List Joined)
  | [] => some []
  | .keyword .left :: .keyword .join :: .lexeme (.name table) :: .word row :: .keyword .on' ::
      a :: b :: c :: .mark ['='] :: x :: y :: z :: rest => do
    let joined ← joinedOf? false table row [a, b, c] [x, y, z]
    return joined :: (← joinsOf? rest)
  | .keyword .join :: .lexeme (.name table) :: .word row :: .keyword .on' ::
      a :: b :: c :: .mark ['='] :: x :: y :: z :: rest => do
    let joined ← joinedOf? true table row [a, b, c] [x, y, z]
    return joined :: (← joinsOf? rest)
  | _ => none

/-- The table of a statement, whose row is the root, and those joined to it. -/
def tablesOf? : List Item → Option (String × List Joined)
  | .lexeme (.name table) :: .word ['r'] :: rest =>
    (joinsOf? rest).map fun joins => (.ofList table, joins)
  | _ => none

/-- The items of a statement, clause by clause. -/
structure Clauses where
  outputs : List Item
  tables : List Item
  restriction : Option (List Item)
  grouping : Option (List Item)
  having : Option (List Item)
  order : Option (List Item)
  limit : Option (List Item)
  offset : Option (List Item)

/-- The clauses of a statement, in the order in which they have to stand. -/
def Clauses.ofItems? : List Item → Option Clauses
  | .keyword .select :: items => do
    let (outputs, _, items) ← cutAt? (Item.isKeyword .from') items
    let tables := items.takeWhile (!·.beginsClause)
    let (restriction, items) := clause [.where'] (items.dropWhile (!·.beginsClause))
    let (grouping, items) := clause [.group, .by'] items
    let (having, items) := clause [.having] items
    let (order, items) := clause [.order, .by'] items
    let (limit, items) := clause [.limit] items
    let (offset, items) := clause [.offset] items
    if items.isEmpty then
      some ⟨outputs, tables, restriction, grouping, having, order, limit, offset⟩
    else none
  | _ => none

/-- The statement with these clauses, where its restriction is read in a given way. -/
def Clauses.query? {R : Type} (restriction? : List Item → Option R) (c : Clauses) :
    Option (Query R) := do
  let (table, joins) ← tablesOf? c.tables
  return {
    outputs := ← (commas c.outputs).mapM outputOf?
    table := table
    joins := joins
    restriction := ← c.restriction.mapM restriction?
    grouping := ← c.grouping.mapM fun items => (commas items).mapM columnOf?
    having := ← c.having.mapM Expr.ofItems?
    order := ← (c.order.elim [] commas).mapM orderOf?
    limit := ← c.limit.mapM numberOf?
    offset := ← c.offset.mapM numberOf? }

/-! ## Groups -/

/-- What the items in a pair of parentheses are. -/
def Group.ofItems? : List Item → Option Group
  | [.mark ['*']] => some .all
  | .keyword .distinct :: items => (Expr.ofItems? items).map .distinct
  | .keyword .select :: items =>
    ((Clauses.ofItems? (.keyword .select :: items)).bind (·.query? Expr.ofItems?)).map .query
  | items => (Expr.ofItems? items).map .expr

theorem Group.ofItems?_expr {items : List Item}
    (first : ∀ i ∈ items.head?, i.opensOther = false) :
    ofItems? items = (Expr.ofItems? items).map .expr := by
  unfold ofItems?
  split
  · exact absurd (first _ rfl) (by decide)
  · exact absurd (first _ rfl) (by decide)
  · exact absurd (first _ rfl) (by decide)
  · rfl

/-- A lexeme put onto the stack of open parentheses. -/
def gather : List (List Item) → Lexeme → Option (List (List Item))
  | here :: outer, .opening => some ([] :: here :: outer)
  | inner :: here :: outer, .closing => do
    return (here ++ [.group (← Group.ofItems? inner)]) :: outer
  | [_], .closing => none
  | here :: outer, l => some ((here ++ [.lexeme l]) :: outer)
  | [], _ => none

/-- The items of a text. -/
def itemsOf? (s : String) : Option (List Item) := do
  match ← (← lex s).foldlM gather [[]] with
  | [items] => some items
  | _ => none

/-- What the rows of a statement are restricted by. -/
inductive Kept where
  | rows (e : Expr)
  /-- The identifier is among those that a statement in parentheses gives. -/
  | among (c : ColumnRef) (q : Query Expr)

def Kept.ofItems? (items : List Item) : Option Kept :=
  match Expr.ofItems? items with
  | some e => some (.rows e)
  | none => match items with
    | [a, b, c, .keyword .in', .group (.query q)] => (columnOf? [a, b, c]).map (.among · q)
    | _ => none

/-- The statement that a text is. -/
def Query.read? (s : String) : Option (Query Kept) := do
  (← Clauses.ofItems? (← itemsOf? s)).query? Kept.ofItems?

/-- The condition that a text is. -/
def Expr.read? (s : String) : Option Expr := (itemsOf? s).bind Expr.ofItems?

/-! ## Texts put together -/

/-- The lexemes put these items onto any stack. -/
def Gathers (ls : List Lexeme) (items : List Item) : Prop :=
  ∀ here outer, ls.foldlM gather (here :: outer) = some ((here ++ items) :: outer)

/-- There are no parentheses among the lexemes. -/
def Unenclosed (ls : List Lexeme) : Prop := ∀ l ∈ ls, l ≠ .opening ∧ l ≠ .closing

instance (ls : List Lexeme) : Decidable (Unenclosed ls) :=
  inferInstanceAs (Decidable (∀ l ∈ ls, _))

/-- The text has lexemes that put these items onto any stack. -/
def Reads (s : String) (items : List Item) : Prop := ∃ ls, lex s = some ls ∧ Gathers ls items

variable {l l' : List Lexeme} {items items' : List Item} {s t : String} {g : Group}

theorem Gathers.append (h : Gathers l items) (h' : Gathers l' items') :
    Gathers (l ++ l') (items ++ items') := by
  intro here outer
  rw [List.foldlM_append, h here outer]
  simp [h' (here ++ items) outer]

theorem gathers_of_unenclosed (h : Unenclosed l) : Gathers l (l.map .lexeme) := by
  induction l with
  | nil => intro here outer; simp
  | cons a l ih =>
    obtain ⟨⟨opening, closing⟩, rest⟩ := List.forall_mem_cons.mp h
    have first : Gathers [a] [.lexeme a] := by
      intro here outer
      cases a with
      | opening => exact absurd rfl opening
      | closing => exact absurd rfl closing
      | _ => cases outer <;> rfl
    exact first.append (ih rest)

theorem Gathers.group (h : Gathers l items) (read : Group.ofItems? items = some g) :
    Gathers (.opening :: l ++ [.closing]) [.group g] := by
  intro here outer
  have inner := h [] (here :: outer)
  simp [gather, inner, read]

theorem Reads.of_lex (h : lex s = some l) (unenclosed : Unenclosed l) :
    Reads s (l.map .lexeme) := ⟨l, h, gathers_of_unenclosed unenclosed⟩

theorem Reads.append (hs : Reads s items) (ht : Reads t items') (detached : Detached t) :
    Reads (s ++ t) (items ++ items') := by
  obtain ⟨l, hs, gathers⟩ := hs
  obtain ⟨l', ht, gathers'⟩ := ht
  exact ⟨l ++ l', lex_detached hs ht detached, gathers.append gathers'⟩

theorem Reads.after (hs : Settles s l) (unenclosed : Unenclosed l) (ht : Reads t items) :
    Reads (s ++ t) (l.map .lexeme ++ items) := by
  obtain ⟨l', ht, gathers⟩ := ht
  exact ⟨l ++ l', lex_settled hs ht, (gathers_of_unenclosed unenclosed).append gathers⟩

/-- Two texts with words between them. -/
theorem Reads.between {w : String} (hs : Reads s items) (ht : Reads t items')
    (hw : Settles w l) (unenclosed : Unenclosed l) (detached : Detached w)
    (ne : w ≠ "") : Reads (s ++ w ++ t) (items ++ (l.map .lexeme ++ items')) := by
  rw [String.append_assoc]
  exact hs.append (.after hw unenclosed ht) (detached_append ne detached)

/-- A text in parentheses, after words. -/
theorem Reads.enclosed {b : String} (hb : Settles b (l ++ [.opening]))
    (unenclosed : Unenclosed l) (hs : Reads s items) (read : Group.ofItems? items = some g) :
    Reads (b ++ s ++ ")") (l.map .lexeme ++ [.group g]) := by
  obtain ⟨l', hs, gathers⟩ := hs
  have closing : lex ")" = some [.closing] := by decide
  refine ⟨l ++ (.opening :: l' ++ [.closing]), ?_,
    (gathers_of_unenclosed unenclosed).append (gathers.group read)⟩
  rw [String.append_assoc]
  simpa using lex_settled hb (lex_detached hs closing (by decide))

theorem Reads.itemsOf? (h : Reads s items) : itemsOf? s = some items := by
  obtain ⟨l, hs, gathers⟩ := h
  unfold Sql.itemsOf?
  simp [hs, gathers [] []]

theorem Reads.expr (h : Reads s items) {e : Expr} (read : Expr.ofItems? items = some e) :
    Expr.read? s = some e := by
  rw [Expr.read?, h.itemsOf?, Option.bind_some, read]

end EntityQuery.Sql
