import EntityQuery.Proofs.Sql.Rendering

/-!
# The text of a statement is read as the statement

`Statement.query` says which query the text of a statement is meant to be: its tables and columns,
and the expressions of its conditions. **The text of every statement is read as this query and no
other** (`Statement.read?_text`).

The clauses of a statement stand in a fixed order and each begins with words of its own, so that
they are found again if none of them holds such a word outside parentheses
(`Clauses.ofItems?_items`). Names are quoted and conditions are factors, and neither holds one.
-/

namespace EntityQuery.Sql

/-! ## Clauses put together -/

/-- The items of a clause that begins with these keywords, if there is one. -/
def clauseItems (ks : List Keyword) : Option (List Item) → List Item
  | none => []
  | some items => ks.map .keyword ++ items

def Clauses.items (c : Clauses) : List Item :=
  .keyword .select :: (c.outputs ++ .keyword .from' :: (c.tables ++
    (clauseItems [.where'] c.restriction ++ (clauseItems [.group, .by'] c.grouping ++
      (clauseItems [.having] c.having ++ (clauseItems [.order, .by'] c.order ++
        (clauseItems [.limit] c.limit ++ clauseItems [.offset] c.offset)))))))

/-- The items begin no clause. -/
def Unopened (items : List Item) : Prop := ∀ i ∈ items, i.beginsClause = false

/-- No clause is cut short by what stands in it. -/
structure Clauses.Separable (c : Clauses) : Prop where
  outputs : ∀ i ∈ c.outputs, i.isKeyword .from' = false
  tables : Unopened c.tables
  restriction : ∀ items ∈ c.restriction, Unopened items
  grouping : ∀ items ∈ c.grouping, Unopened items
  having : ∀ items ∈ c.having, Unopened items
  order : ∀ items ∈ c.order, Unopened items
  limit : ∀ items ∈ c.limit, Unopened items
  offset : ∀ items ∈ c.offset, Unopened items

/-- The items are nothing, or begin a clause with one of these keywords. -/
def Later (ks : List Keyword) (items : List Item) : Prop :=
  ∀ i ∈ items.head?, ∃ k ∈ ks, i = .keyword k

theorem Later.clause {k : Keyword} {ks o : List Keyword} {rest : List Item} (h : Later ks rest)
    (c : Option (List Item)) : Later (k :: ks) (clauseItems (k :: o) c ++ rest) := by
  cases c with
  | none =>
    intro i hi
    obtain ⟨k', hk', rfl⟩ := h i hi
    exact ⟨k', List.mem_cons_of_mem _ hk', rfl⟩
  | some items =>
    rintro _ ⟨⟩
    exact ⟨k, List.mem_cons_self, rfl⟩

theorem takeWhile_unopened {items rest : List Item} (h : Unopened items)
    (next : ∀ i ∈ rest.head?, i.beginsClause = true) :
    (items ++ rest).takeWhile (!·.beginsClause) = items ∧
      (items ++ rest).dropWhile (!·.beginsClause) = rest := by
  have own : ∀ i ∈ items, (!i.beginsClause) = true := fun i hi => by simp [h i hi]
  rw [List.takeWhile_append_of_pos own, List.dropWhile_append_of_pos own]
  cases rest with
  | nil => simp
  | cons i rest => simp [next i rfl]

theorem Later.begins {ks : List Keyword} {items : List Item} (h : Later ks items)
    (opens : ∀ k ∈ ks, (Item.keyword k).beginsClause = true) :
    ∀ i ∈ items.head?, i.beginsClause = true := by
  intro i hi
  obtain ⟨k, hk, rfl⟩ := h i hi
  exact opens k hk

/-- A clause is found where it stands, and where it does not stand, none is found. -/
theorem clause_items {k : Keyword} {ks later : List Keyword} {c : Option (List Item)}
    {rest : List Item} (own : ∀ items ∈ c, Unopened items) (next : Later later rest)
    (other : k ∉ later) (opens : ∀ k' ∈ later, (Item.keyword k').beginsClause = true) :
    clause (k :: ks) (clauseItems (k :: ks) c ++ rest) = (c, rest) := by
  have dropped (ks : List Keyword) (items : List Item) :
      dropKeywords? ks (ks.map Item.keyword ++ items) = some items := by
    induction ks with
    | nil => rfl
    | cons k ks ih => simpa [dropKeywords?] using ih
  unfold clause
  cases c with
  | some items =>
    obtain ⟨taken, left⟩ := takeWhile_unopened (own items rfl) (next.begins opens)
    rw [clauseItems, List.append_assoc, dropped]
    dsimp only
    rw [taken, left]
  | none =>
    have nothing : dropKeywords? (k :: ks) rest = none := by
      cases rest with
      | nil => rfl
      | cons i rest =>
        obtain ⟨k', hk', rfl⟩ := next i rfl
        exact if_neg (by rintro rfl; exact other hk')
    rw [clauseItems, List.nil_append, nothing]

/-- The clauses of a statement are found again. -/
theorem Clauses.ofItems?_items {c : Clauses} (h : c.Separable) : ofItems? c.items = some c := by
  have last : Later [] ([] : List Item) := nofun
  have offset := last.clause (k := .offset) (o := []) c.offset
  have limit := offset.clause (k := .limit) (o := []) c.limit
  have order := limit.clause (k := .order) (o := [.by']) c.order
  have having := order.clause (k := .having) (o := []) c.having
  have grouping := having.clause (k := .group) (o := [.by']) c.grouping
  have restriction := grouping.clause (k := .where') (o := []) c.restriction
  obtain ⟨tables, rest⟩ := takeWhile_unopened h.tables (restriction.begins (by decide))
  unfold ofItems? Clauses.items
  rw [← List.append_nil (clauseItems [.offset] c.offset)]
  dsimp only
  rw [cutAt?_append_cons h.outputs rfl]
  simp only [Option.bind_eq_bind, Option.bind_some, tables, rest]
  rw [clause_items h.restriction grouping (by decide) (by decide)]
  dsimp only
  rw [clause_items h.grouping having (by decide) (by decide)]
  dsimp only
  rw [clause_items h.having order (by decide) (by decide)]
  dsimp only
  rw [clause_items h.order limit (by decide) (by decide)]
  dsimp only
  rw [clause_items h.limit offset (by decide) (by decide)]
  dsimp only
  rw [clause_items h.offset last (by decide) (by decide)]
  rfl

/-! ## Lists -/

/-- Items with commas between them. -/
def commaItems : List (List Item) → List Item
  | [] => []
  | [x] => x
  | x :: rest => x ++ .lexeme .comma :: commaItems rest

theorem reads_nil : Reads "" [] := .of_lex (l := []) (by decide) (by decide)

section

variable {α : Type} {text : α → String} {items : α → List Item} {l : List α}

theorem reads_commaText (h : ∀ a ∈ l, Reads (text a) (items a)) :
    Reads (commaText (l.map text)) (commaItems (l.map items)) := by
  unfold commaText
  induction l with
  | nil => exact reads_nil
  | cons a l ih =>
    obtain ⟨ha, hl⟩ := List.forall_mem_cons.mp h
    cases l with
    | nil => simpa [commaItems] using ha
    | cons b l =>
      rw [List.map_cons, List.map_cons, String.intercalate_cons_cons]
      exact ha.between (ih hl) (w := ", ") (l := [.comma]) (by decide) (by decide)
        (by decide) (by decide)

theorem forall_mem_commaItems {P : Item → Prop} (comma : P (.lexeme .comma))
    {parts : List (List Item)} (h : ∀ x ∈ parts, ∀ i ∈ x, P i) : ∀ i ∈ commaItems parts, P i := by
  induction parts with
  | nil => nofun
  | cons x parts ih =>
    obtain ⟨hx, hparts⟩ := List.forall_mem_cons.mp h
    cases parts with
    | nil => exact hx
    | cons y parts =>
      exact List.forall_mem_append.mpr ⟨hx, List.forall_mem_cons.mpr ⟨comma, ih hparts⟩⟩

/-- Parts without commas are found again between the commas. -/
theorem commas_commaItems {parts : List (List Item)}
    (h : ∀ x ∈ parts, x ≠ [] ∧ ∀ i ∈ x, i.isComma = false) : commas (commaItems parts) = parts := by
  have divided : ∀ parts : List (List Item), parts ≠ [] →
      (∀ x ∈ parts, ∀ i ∈ x, i.isComma = false) →
      (commaItems parts).splitOnP Item.isComma = parts := by
    intro parts ne h
    induction parts with
    | nil => exact absurd rfl ne
    | cons x parts ih =>
      obtain ⟨hx, hparts⟩ := List.forall_mem_cons.mp h
      cases parts with
      | nil => exact List.splitOnP_eq_singleton hx
      | cons y parts =>
        rw [commaItems, List.splitOnP_append_cons_of_forall_mem hx _ rfl, ih nofun hparts]
        nofun
  cases parts with
  | nil => rfl
  | cons x parts =>
    have something : (commaItems (x :: parts)).isEmpty = false := by
      obtain ⟨ne, _⟩ := h x List.mem_cons_self
      cases parts <;> simp [commaItems, ne]
    rw [commas, something]
    exact divided _ nofun fun x hx => (h x hx).2

end

/-! ## Columns and tables -/

/-- The items of a column. -/
def ColumnRef.items (c : ColumnRef) : List Item :=
  [.word c.row.text.toList, .lexeme .dot, .lexeme (.name c.column.toList)]

theorem columnOf?_items (c : ColumnRef) : columnOf? c.items = some c := by
  show (Alias.read? c.row.text.toList).map _ = _
  rw [Alias.read?_text, Option.map_some, String.ofList_toList]

theorem reads_name (n : String) : Reads (quoteName n) [.lexeme (.name n.toList)] :=
  .of_lex (lex_quoteName n) (by simp [Unenclosed])

/-- The items of a join. -/
def JoinClause.items (j : JoinClause) : List Item :=
  (if j.required then [] else [.keyword .left]) ++
    .keyword .join :: .lexeme (.name j.table.toList) :: .word j.row.text.toList ::
      .keyword .on' :: ((ColumnRef.mk j.row j.column).items ++ .mark ['='] :: j.other.items)

def JoinClause.joined (j : JoinClause) : Joined :=
  ⟨j.required, j.table, j.row, ⟨j.row, j.column⟩, j.other⟩

theorem JoinClause.text_eq (j : JoinClause) : j.text =
    (if j.required then " JOIN " else " LEFT JOIN ") ++
      ((quoteName j.table ++ " " ++ j.row.text) ++ " ON " ++
        ((ColumnRef.mk j.row j.column).text ++ " = " ++ j.other.text)) := by
  simp only [JoinClause.text, String.append_assoc]

theorem JoinClause.reads (j : JoinClause) : Reads j.text j.items := by
  have row : Reads j.row.text [.word j.row.text.toList] :=
    .of_lex (lex_alias j.row) (by simp [Unenclosed])
  have named := (reads_name j.table).between row (w := " ") (l := []) (by decide)
    (by decide) (by decide) (by decide)
  have sides := (reads_column ⟨j.row, j.column⟩).between (reads_column j.other) (w := " = ")
    (l := [.mark ['=']]) (by decide) (by decide) (by decide) (by decide)
  have joined := named.between sides (w := " ON ") (l := [.keyword .on']) (by decide)
    (by decide) (by decide) (by decide)
  rw [j.text_eq]
  unfold JoinClause.items
  cases j.required with
  | true => exact .after (l := [.keyword .join]) (by decide) (by decide) joined
  | false =>
    exact .after (l := [.keyword .left, .keyword .join]) (by decide) (by decide) joined

theorem JoinClause.detached (j : JoinClause) : Detached j.text := by
  rw [j.text_eq]
  cases j.required with
  | true => exact detached_append (by decide) (by decide)
  | false => exact detached_append (by decide) (by decide)

theorem reads_joins (joins : List JoinClause) :
    Reads (String.join (joins.map JoinClause.text)) (joins.flatMap JoinClause.items) ∧
      Detached (String.join (joins.map JoinClause.text)) := by
  induction joins with
  | nil => exact ⟨reads_nil, by decide⟩
  | cons j joins ih =>
    obtain ⟨reads, detached⟩ := ih
    rw [List.map_cons, String.join_cons, List.flatMap_cons]
    exact ⟨j.reads.append reads detached, j.detached.append detached⟩

theorem joinsOf?_items (joins : List JoinClause) :
    joinsOf? (joins.flatMap JoinClause.items) = some (joins.map JoinClause.joined) := by
  induction joins with
  | nil => rfl
  | cons j joins ih =>
    have own (required : Bool) : joinedOf? required j.table.toList j.row.text.toList
        (ColumnRef.mk j.row j.column).items j.other.items =
          some ⟨required, j.table, j.row, ⟨j.row, j.column⟩, j.other⟩ := by
      simp [joinedOf?, Alias.read?_text, columnOf?_items, String.ofList_toList]
    rw [List.flatMap_cons, List.map_cons]
    unfold JoinClause.items JoinClause.joined
    cases hr : j.required with
    | true =>
      show (do
        let joined ← joinedOf? true j.table.toList j.row.text.toList
          (ColumnRef.mk j.row j.column).items j.other.items
        return joined :: (← joinsOf? (joins.flatMap JoinClause.items))) = _
      rw [own, ih]
      rfl
    | false =>
      show (do
        let joined ← joinedOf? false j.table.toList j.row.text.toList
          (ColumnRef.mk j.row j.column).items j.other.items
        return joined :: (← joinsOf? (joins.flatMap JoinClause.items))) = _
      rw [own, ih]
      rfl

/-- The items of the tables of a statement. -/
def tableItems (table : String) (joins : List JoinClause) : List Item :=
  .lexeme (.name table.toList) :: .word ['r'] :: joins.flatMap JoinClause.items

theorem reads_fromText (table : String) (joins : List JoinClause) :
    Reads (fromText table joins) (tableItems table joins) := by
  obtain ⟨reads, detached⟩ := reads_joins joins
  have root : lex " r" = some [.word ['r']] := by decide
  unfold fromText
  rw [String.append_assoc]
  exact (reads_name table).append ((Reads.of_lex root (by decide)).append reads detached)
    (detached_append (by decide) (by decide))

theorem tablesOf?_items (table : String) (joins : List JoinClause) :
    tablesOf? (tableItems table joins) = some (table, joins.map JoinClause.joined) := by
  show (joinsOf? _).map _ = _
  rw [joinsOf?_items, Option.map_some, String.ofList_toList]

theorem JoinClause.unopened (j : JoinClause) : Unopened j.items := by
  unfold Unopened JoinClause.items
  cases j.required <;> simp [ColumnRef.items, Item.beginsClause, Item.isKeyword]

theorem unopened_tableItems (table : String) (joins : List JoinClause) :
    Unopened (tableItems table joins) := by
  refine List.forall_mem_cons.mpr ⟨rfl, List.forall_mem_cons.mpr ⟨rfl, ?_⟩⟩
  intro i hi
  obtain ⟨j, _, hi⟩ := List.mem_flatMap.mp hi
  exact j.unopened i hi

/-! ## Outputs and orders -/

/-- The items are one of the parts of a list in a statement. -/
structure IsPart (items : List Item) : Prop where
  ne : items ≠ []
  undivided : ∀ i ∈ items, i.isComma = false
  unopened : Unopened items
  selects : ∀ i ∈ items, i.isKeyword .from' = false

theorem isPart_column (c : ColumnRef) : IsPart c.items := by
  constructor <;>
    simp [Unopened, ColumnRef.items, Item.isComma, Item.beginsClause, Item.isKeyword]

/-- Words after a column. -/
theorem IsPart.append {a b : List Item} (ha : IsPart a)
    (hb : ∀ i ∈ b, i.isComma = false ∧ i.beginsClause = false ∧ i.isKeyword .from' = false) :
    IsPart (a ++ b) where
  ne h := ha.ne (List.append_eq_nil_iff.mp h).1
  undivided := List.forall_mem_append.mpr ⟨ha.undivided, fun i hi => (hb i hi).1⟩
  unopened := List.forall_mem_append.mpr ⟨ha.unopened, fun i hi => (hb i hi).2.1⟩
  selects := List.forall_mem_append.mpr ⟨ha.selects, fun i hi => (hb i hi).2.2⟩

/-- The text has these items, which are a part that is read as the value. -/
structure IsSpelled {α : Type} (read? : List Item → Option α) (text : String) (items : List Item)
    (a : α) : Prop where
  reads : Reads text items
  isPart : IsPart items
  read : read? items = some a

/-- A list of such texts, with commas. -/
theorem isSpelled_commaText {α : Type} {read? : List Item → Option α} {text : α → String}
    {items : α → List Item} (h : ∀ a, IsSpelled read? (text a) (items a) a) (l : List α) :
    Reads (commaText (l.map text)) (commaItems (l.map items)) ∧
      (commas (commaItems (l.map items))).mapM read? = some l ∧
      Unopened (commaItems (l.map items)) ∧
      ∀ i ∈ commaItems (l.map items), i.isKeyword .from' = false := by
  have each {P : List Item → Prop} (own : ∀ x, IsPart x → P x) : ∀ x ∈ l.map items, P x :=
    List.forall_mem_map.mpr fun a _ => own _ (h a).isPart
  refine ⟨reads_commaText fun a _ => (h a).reads, ?_, ?_, ?_⟩
  · rw [commas_commaItems (each fun x hx => ⟨hx.ne, hx.undivided⟩)]
    induction l with
    | nil => rfl
    | cons a l ih =>
      have rest := ih fun own => List.forall_mem_map.mpr fun a _ => own _ (h a).isPart
      simp [List.mapM_cons, (h a).read, rest]
  · exact forall_mem_commaItems (P := fun i => i.beginsClause = false) rfl
      (each fun x hx => hx.unopened)
  · exact forall_mem_commaItems (P := fun i => i.isKeyword .from' = false) rfl
      (each fun x hx => hx.selects)

theorem isSpelled_column (c : ColumnRef) : IsSpelled columnOf? c.text c.items c :=
  ⟨reads_column c, isPart_column c, columnOf?_items c⟩

/-- The items of an output. -/
def Output.items : Output → List Item
  | count => [.word ['c', 'o', 'u', 'n', 't'], .group .all]
  | column c => c.items
  | owner c => c.items ++ [.keyword .as', .lexeme (.name ownerKey.toList)]

theorem Output.isSpelled (o : Output) : IsSpelled outputOf? o.text o.items o := by
  cases o with
  | count =>
    have all : lex "*" = some [.mark ['*']] := by decide
    refine ⟨?_, ?_, rfl⟩
    · exact .enclosed (l := [.word ['c', 'o', 'u', 'n', 't']]) (b := "COUNT(")
        (by decide) (by decide) (.of_lex all (by decide)) rfl
    · constructor <;> simp [Unopened, items, Item.isComma, Item.beginsClause, Item.isKeyword]
  | column c =>
    refine ⟨reads_column c, isPart_column c, ?_⟩
    show (columnOf? c.items).map _ = _
    rw [columnOf?_items]
    rfl
  | owner c =>
    refine ⟨?_, (isPart_column c).append ?_, ?_⟩
    · exact (reads_column c).between (reads_name ownerKey) (w := " AS ")
        (l := [.keyword .as']) (by decide) (by decide) (by decide) (by decide)
    · simp [Item.isComma, Item.beginsClause, Item.isKeyword]
    · have column := columnOf?_items c
      unfold ColumnRef.items at column
      simp [outputOf?, items, ColumnRef.items, column]

/-- The items of a column to sort by. -/
def OrderTerm.items (t : OrderTerm) : List Item :=
  t.column.items ++ ((match t.direction with
      | .ascending => .keyword .asc
      | .descending => .keyword .desc) ::
    if t.nullsLast then [.keyword .nulls, .keyword .last] else [])

theorem OrderTerm.isSpelled (t : OrderTerm) : IsSpelled orderOf? t.text t.items t := by
  obtain ⟨column, direction, nullsLast⟩ := t
  refine ⟨?_, (isPart_column column).append ?_, ?_⟩
  · have words : ∃ ls, lex (" " ++ direction.keyword ++ (if nullsLast then " NULLS LAST" else "")) =
        some ls ∧ Unenclosed ls ∧ (OrderTerm.mk column direction nullsLast).items =
          column.items ++ ls.map .lexeme := by
      cases direction <;> cases nullsLast <;>
        exact ⟨_, rfl, by decide, rfl⟩
    obtain ⟨ls, words, unenclosed, items⟩ := words
    have text : (OrderTerm.mk column direction nullsLast).text = column.text ++
        (" " ++ direction.keyword ++ (if nullsLast then " NULLS LAST" else "")) := by
      simp only [OrderTerm.text, String.append_assoc]
    rw [items, text]
    exact (reads_column column).append (.of_lex words unenclosed)
      (by cases direction <;> cases nullsLast <;> decide)
  · cases direction <;> cases nullsLast <;>
      simp [Item.isComma, Item.beginsClause, Item.isKeyword]
  · cases direction <;> cases nullsLast <;>
      exact congrArg (Option.map _) (columnOf?_items column)

/-! ## Queries -/

/-- The query that the text of a subquery is read as. -/
def Subquery.query (q : Subquery) : Query Expr where
  outputs := [.column q.id]
  table := q.table
  joins := q.joins.map JoinClause.joined
  restriction := if q.grouping.isSome then none else some (q.condition.expr 0)
  grouping := q.grouping
  having := if q.grouping.isSome then some (q.condition.expr 0) else none
  order := []
  limit := none
  offset := none

def Restriction.kept : Restriction → Option Kept
  | all => none
  | rows c => some (.rows (c.expr 0))
  | identifiers q => some (.among q.id q.query)

/-- The query that the text of a statement is read as. -/
def Statement.query (st : Statement) : Query Kept where
  outputs := st.outputs
  table := st.table
  joins := st.joins.map JoinClause.joined
  restriction := st.restriction.kept
  grouping := none
  having := none
  order := st.order
  limit := st.limit
  offset := if st.offset = 0 then none else some st.offset

theorem reads_select {outputs tables rest : String} {x y z : List Item} (ho : Reads outputs x)
    (ht : Reads tables y) (hr : Reads rest z) (detached : Detached rest) :
    Reads ("SELECT " ++ outputs ++ " FROM " ++ tables ++ rest)
      (.keyword .select :: (x ++ .keyword .from' :: (y ++ z))) := by
  have selected := Reads.after (l := [.keyword .select]) (s := "SELECT ") (by decide)
    (by decide) ho
  have whole := selected.between (ht.append hr detached) (w := " FROM ")
    (l := [.keyword .from']) (by decide) (by decide) (by decide) (by decide)
  rwa [← String.append_assoc] at whole

/-- A clause with its words. -/
theorem reads_clause {w text : String} {k : List Keyword} {x : List Item}
    (hw : Settles w (k.map .keyword)) (h : Reads text x) :
    Reads (w ++ text) (clauseItems k (some x)) := by
  have reads := Reads.after hw (by simp [Unenclosed]) h
  rwa [List.map_map] at reads

theorem unopened_absent : ∀ items ∈ (none : Option (List Item)), Unopened items := by simp

theorem unopened_present {x : List Item} (h : Unopened x) :
    ∀ items ∈ some x, Unopened items := by
  rintro _ ⟨⟩
  exact h

/-- A subquery is read as the query that it is. -/
theorem Subquery.reads (q : Subquery) :
    ∃ c : Clauses, Reads (q.fragment.textFrom 0) c.items ∧ c.Separable ∧
      c.query? Expr.ofItems? = some q.query := by
  obtain ⟨id, table, joins, grouping, condition⟩ := q
  obtain ⟨x, reads, factor⟩ := condition.reads 0
  obtain ⟨-, output, -, selects⟩ := isSpelled_commaText Output.isSpelled [.column id]
  have tables := reads_fromText table joins
  cases grouping with
  | none =>
    have restriction := reads_clause (k := [.where']) (w := " WHERE ") (by decide) reads
    refine ⟨⟨id.items, tableItems table joins, some x, none, none, none, none, none⟩, ?_, ?_, ?_⟩
    · have text : (Subquery.mk id table joins none condition).fragment.textFrom 0 =
          "SELECT " ++ id.text ++ " FROM " ++ fromText table joins ++
            (" WHERE " ++ condition.fragment.textFrom 0) := by
        simp [fragment, Fragment.textFrom, String.append_assoc]
      have whole := reads_select (isSpelled_column id).reads tables restriction
        (detached_append (by decide) (by decide))
      rw [text]
      simpa only [Clauses.items, clauseItems, List.append_nil] using whole
    · exact ⟨selects, unopened_tableItems table joins, unopened_present factor.notClause,
        unopened_absent, unopened_absent, unopened_absent, unopened_absent, unopened_absent⟩
    · have output : (commas id.items).mapM outputOf? = some [.column id] := output
      simp [Clauses.query?, tablesOf?_items, output, factor.ofItems?, query]
  | some columns =>
    obtain ⟨listed, read, unopened, -⟩ := isSpelled_commaText isSpelled_column columns
    have grouping := reads_clause (k := [.group, .by']) (w := " GROUP BY ")
      (by decide) listed
    have having := reads_clause (k := [.having]) (w := " HAVING ") (by decide) reads
    refine ⟨⟨id.items, tableItems table joins, none,
      some (commaItems (columns.map ColumnRef.items)), some x, none, none, none⟩, ?_, ?_, ?_⟩
    · have text : (Subquery.mk id table joins (some columns) condition).fragment.textFrom 0 =
          "SELECT " ++ id.text ++ " FROM " ++ fromText table joins ++
            (" GROUP BY " ++ commaText (columns.map ColumnRef.text) ++
              (" HAVING " ++ condition.fragment.textFrom 0)) := by
        simp [fragment, Fragment.textFrom, String.append_assoc]
      have grouped := grouping.append having (detached_append (by decide) (by decide))
      have whole := reads_select (isSpelled_column id).reads tables grouped
        (by rw [String.append_assoc]; exact detached_append (by decide) (by decide))
      rw [text]
      simpa only [Clauses.items, clauseItems, List.append_nil, List.nil_append] using whole
    · exact ⟨selects, unopened_tableItems table joins, unopened_absent,
        unopened_present unopened, unopened_present factor.notClause, unopened_absent,
        unopened_absent, unopened_absent⟩
    · have output : (commas id.items).mapM outputOf? = some [.column id] := output
      simp [Clauses.query?, tablesOf?_items, output, read, factor.ofItems?, query]

/-- The text is a clause that begins with these keywords, or nothing. -/
structure IsClause (text : String) (ks : List Keyword) (c : Option (List Item)) : Prop where
  reads : Reads text (clauseItems ks c)
  detached : Detached text
  unopened : ∀ items ∈ c, Unopened items

theorem IsClause.nothing (ks : List Keyword) : IsClause "" ks none :=
  ⟨reads_nil, by decide, unopened_absent⟩

theorem IsClause.words {w text : String} {ks : List Keyword} {x : List Item}
    (hw : Settles w (ks.map .keyword)) (detached : Detached w) (ne : w ≠ "")
    (h : Reads text x) (unopened : Unopened x) : IsClause (w ++ text) ks (some x) :=
  ⟨reads_clause hw h, detached_append ne detached, unopened_present unopened⟩

/-- What stands for the rows of a statement is read as what it keeps. -/
theorem Restriction.reads (r : Restriction) :
    ∃ c, IsClause (r.fragment.textFrom 0) [.where'] c ∧ c.mapM Kept.ofItems? = some r.kept := by
  cases r with
  | all => exact ⟨none, .nothing _, rfl⟩
  | rows c =>
    obtain ⟨x, reads, factor⟩ := c.reads 0
    refine ⟨some x, ?_, ?_⟩
    · exact .words (w := " WHERE ") (by decide) (by decide) (by decide) reads
        factor.notClause
    · simp [Kept.ofItems?, factor.ofItems?, kept]
  | identifiers q =>
    obtain ⟨c, reads, separable, read⟩ := q.reads
    have group : Group.ofItems? c.items = some (.query q.query) := by
      show ((Clauses.ofItems? c.items).bind (·.query? Expr.ofItems?)).map _ = _
      rw [Clauses.ofItems?_items separable, Option.bind_some, read]
      rfl
    have among := Reads.enclosed (b := " IN (") (l := [.keyword .in']) (by decide)
      (by decide) reads group
    have column := (isSpelled_column q.id).reads.append among
      (by rw [String.append_assoc]; exact detached_append (by decide) (by decide))
    refine ⟨some (q.id.items ++ [.keyword .in', .group (.query q.query)]), ?_, ?_⟩
    · have text : (identifiers q).fragment.textFrom 0 = " WHERE " ++ (q.id.text ++
          (" IN (" ++ q.fragment.textFrom 0 ++ ")")) := by
        simp [fragment, Fragment.textFrom, Fragment.textFrom_append, String.append_assoc]
      rw [text]
      refine .words (by decide) (by decide) (by decide) column ?_
      exact List.forall_mem_append.mpr ⟨(isPart_column q.id).unopened, by
        simp [Item.beginsClause, Item.isKeyword]⟩
    · -- A row of items with `IN` is no expression.
      have noExpr : Expr.ofItems? (q.id.items ++ [.keyword .in', .group (.query q.query)]) =
          none := rfl
      have column := columnOf?_items q.id
      have read : Kept.ofItems? (q.id.items ++ [.keyword .in', .group (.query q.query)]) =
          some (.among q.id q.query) := by
        unfold Kept.ofItems?
        rw [noExpr]
        exact congrArg (Option.map _) column
      simp [read, kept]

theorem orderText_isClause (order : List OrderTerm) :
    ∃ c, IsClause (orderText order) [.order, .by'] c ∧
      (c.elim [] commas).mapM orderOf? = some order := by
  obtain ⟨reads, read, unopened, -⟩ := isSpelled_commaText OrderTerm.isSpelled order
  cases order with
  | nil => exact ⟨none, .nothing _, rfl⟩
  | cons t order =>
    exact ⟨some _, .words (w := " ORDER BY ") (by decide) (by decide)
      (by decide) reads unopened, read⟩

/-- A number after its word. -/
theorem isClause_number {words : String} {k : Keyword} (hw : Settles words [.keyword k])
    (detached : Detached words) (ne : words ≠ "") (n : Nat) :
    IsClause (words ++ String.ofList (Decimal.text n)) [k] (some [.lexeme (.number n)]) :=
  .words hw detached ne (.of_lex (lex_number n) (by simp [Unenclosed]))
    (by simp [Unopened, Item.beginsClause, Item.isKeyword])

theorem limit_isClause (limit : Option Nat) :
    ∃ c, IsClause (match limit with
        | some n => " LIMIT " ++ String.ofList (Decimal.text n)
        | none => "") [.limit] c ∧ c.mapM numberOf? = some limit := by
  cases limit with
  | none => exact ⟨none, .nothing _, rfl⟩
  | some n =>
    exact ⟨_, isClause_number (by decide) (by decide) (by decide) n, rfl⟩

theorem offset_isClause (offset : Nat) :
    ∃ c, IsClause (if offset = 0 then "" else " OFFSET " ++ String.ofList (Decimal.text offset))
        [.offset] c ∧
      c.mapM numberOf? = some (if offset = 0 then none else some offset) := by
  by_cases zero : offset = 0
  · exact ⟨none, by rw [if_pos zero]; exact .nothing _, by rw [if_pos zero]; rfl⟩
  · rw [if_neg zero, if_neg zero]
    exact ⟨_, isClause_number (by decide) (by decide) (by decide) offset, rfl⟩

/-- **The text of a statement is read as the statement**, and as nothing else. -/
theorem Statement.read?_text (st : Statement) : Query.read? st.text = some st.query := by
  obtain ⟨outputs, output, -, selects⟩ := isSpelled_commaText Output.isSpelled st.outputs
  obtain ⟨restriction, restricts, kept⟩ := st.restriction.reads
  obtain ⟨order, sorts, sorted⟩ := orderText_isClause st.order
  obtain ⟨limit, limits, most⟩ := limit_isClause st.limit
  obtain ⟨offset, skips, skipped⟩ := offset_isClause st.offset
  let c : Clauses := ⟨commaItems (st.outputs.map Output.items), tableItems st.table st.joins,
    restriction, none, none, order, limit, offset⟩
  have separable : c.Separable :=
    ⟨selects, unopened_tableItems _ _, restricts.unopened, unopened_absent, unopened_absent,
      sorts.unopened, limits.unopened, skips.unopened⟩
  have reads : Reads st.text c.items := by
    have part := limits.reads.append skips.reads skips.detached
    have ends := sorts.reads.append part (limits.detached.append skips.detached)
    have rest := restricts.reads.append ends
      (sorts.detached.append (limits.detached.append skips.detached))
    have whole := reads_select outputs (reads_fromText st.table st.joins) rest
      (restricts.detached.append (sorts.detached.append (limits.detached.append skips.detached)))
    have text : st.text = "SELECT " ++ commaText (st.outputs.map Output.text) ++ " FROM " ++
        fromText st.table st.joins ++ (st.restriction.fragment.textFrom 0 ++
          (orderText st.order ++ partText st.limit st.offset)) := by
      simp [Statement.text, fragment, Fragment.text, Fragment.textFrom, Fragment.textFrom_append,
        String.append_assoc]
    rw [text]
    exact whole
  unfold Query.read?
  rw [reads.itemsOf?]
  simp [Clauses.ofItems?_items separable, Clauses.query?, c, tablesOf?_items, output, kept, sorted,
    most, skipped, query]

end EntityQuery.Sql
