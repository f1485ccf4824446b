import EntityQuery.Proofs.Sql.Like

/-!
# The meaning of conditions

What a database makes of the conditions that are sent to it. A condition is true, false or, where it
depends on a null, unknown (`Logic`). A condition of a row is read in the row; in a condition of
groups a column can stand by itself only if it has one value in all rows of the group, and functions
are applied to the values that it has in these rows (`Scope`, `Term.Denotes`). The comparisons of
scalars, the lower case of texts and the functions of the database are left open: they are what a
`Database` is.

The meaning is a relation (`Condition.Evaluates`), since not every condition has one: a function
cannot be applied in a single row. **Where there is one, there is no other**
(`Condition.Evaluates.unique`).
-/

namespace EntityQuery.Sql

/-- A truth value of a database; none is unknown. -/
abbrev Logic := Option Bool

namespace Logic

/-- A conjunction is false if a side of it is, and true if both are. -/
def and : Logic → Logic → Logic
  | some false, _ => some false
  | some true, b => b
  | none, some false => some false
  | none, _ => none

/-- A disjunction is true if a side of it is, and false if both are false. -/
def or : Logic → Logic → Logic
  | some true, _ => some true
  | some false, b => b
  | none, some true => some true
  | none, _ => none

/-- The negation of what is unknown is unknown. -/
def not (a : Logic) : Logic := a.map Bool.not

/-- Whether some of the values is true: true if one is, false if none is and one is false. Values
that are unknown do not count. -/
def some? (values : List Logic) : Logic :=
  if some true ∈ values then some true else if some false ∈ values then some false else none

end Logic

/-- What a database makes of scalars. -/
structure Database where
  /-- The order of two values other than null, where there is one. -/
  compare : Value → Value → Option Ordering
  lower : String → String
  /-- What a function makes of the values of a column. -/
  call : Aggregate → List Value → Value

namespace Database

/-- Whether two values other than null are equal. -/
def equal (db : Database) (v w : Value) : Bool := db.compare v w = some .eq

/-- The database treats scalars as they are treated here. -/
structure Agrees (db : Database) : Prop where
  compare : ∀ v w, v.isNull = false → w.isNull = false → db.compare v w = v.compare w
  lower : ∀ s, db.lower s = Text.lowercaseString s
  call : ∀ f values, db.call f values = f.apply values

end Database

/-- The values of the columns in a row. -/
abbrev Cells := ColumnRef → Value

/-- Where a condition is read. -/
inductive Scope where
  | row (cells : Cells)
  | group (rows : List Cells)

/-- Whether two values in this order are in the relation. -/
def Relation.holds : Relation → Ordering → Bool
  | eq, o => o == .eq
  | gt, o => o == .gt
  | lt, o => o == .lt
  | gte, o => o == .gt || o == .eq
  | lte, o => o == .lt || o == .eq

/-! ## Terms -/

/-- The value of a term. -/
inductive Term.Denotes (db : Database) : Scope → Term → Value → Prop where
  | cell (cells : Cells) (c : ColumnRef) : Denotes db (.row cells) (.column c) (cells c)
  | common {rows : List Cells} {c : ColumnRef} {v : Value} (ne : rows ≠ [])
      (same : ∀ cells ∈ rows, cells c = v) : Denotes db (.group rows) (.column c) v
  | called (rows : List Cells) (f : Aggregate) (c : ColumnRef) :
      Denotes db (.group rows) (.aggregate f c) (db.call f (rows.map (· c)))
  | parameter (scope : Scope) (v : Value) : Denotes db scope (.parameter (.scalar v)) v
  | null (scope : Scope) : Denotes db scope .null .null

theorem Term.Denotes.unique {db : Database} {scope : Scope} {t : Term} {v w : Value}
    (hv : t.Denotes db scope v) (hw : t.Denotes db scope w) : v = w := by
  cases hv with
  | common ne same =>
    obtain ⟨cells, hcells⟩ := List.exists_mem_of_ne_nil _ ne
    cases hw with
    | common _ same' => exact (same cells hcells).symm.trans (same' cells hcells)
  | cell => cases hw; rfl
  | called => cases hw; rfl
  | parameter => cases hw; rfl
  | null => cases hw; rfl

/-- The text of a pattern; none where it is made of a null. -/
inductive Pattern.Denotes (db : Database) (scope : Scope) (ignoreCase : Bool) :
    Pattern → Option String → Prop where
  | text (s : String) : Denotes db scope ignoreCase (.text s) (some s)
  | term {t : Term} {s : String} (before after : Bool) (h : t.Denotes db scope (.text s)) :
      Denotes db scope ignoreCase (.term t before after)
        (some ((if before then "%" else "") ++ (if ignoreCase then db.lower s else s) ++
          (if after then "%" else "")))
  | null {t : Term} (before after : Bool) (h : t.Denotes db scope .null) :
      Denotes db scope ignoreCase (.term t before after) none

theorem Pattern.Denotes.unique {db : Database} {scope : Scope} {ignoreCase : Bool} {p : Pattern}
    {a b : Option String} (ha : p.Denotes db scope ignoreCase a)
    (hb : p.Denotes db scope ignoreCase b) : a = b := by
  cases ha with
  | text s => cases hb; rfl
  | term before after h =>
    cases hb with
    | term _ _ h' => cases h.unique h'; rfl
    | null _ _ h' => cases h.unique h'
  | null before after h =>
    cases hb with
    | term _ _ h' => cases h.unique h'
    | null _ _ _ => rfl

/-! ## Conditions -/

/-- Whether a text matches a pattern; unknown unless there are both. -/
inductive Matches (db : Database) (ignoreCase : Bool) : Value → Option String → Logic → Prop where
  | text {s p : String} {items : List PatternItem} (h : patternItems? p.toList = some items) :
      Matches db ignoreCase (.text s) (some p)
        (some (matchesItems items (if ignoreCase then db.lower s else s).toList))
  | noText {v : Value} {p : Option String} (h : v.text? = none) : Matches db ignoreCase v p none
  | noPattern {v : Value} : Matches db ignoreCase v none none

theorem Matches.unique {db : Database} {ignoreCase : Bool} {v : Value} {p : Option String}
    {a b : Logic} (ha : Matches db ignoreCase v p a) (hb : Matches db ignoreCase v p b) :
    a = b := by
  cases ha with
  | text h =>
    cases hb with
    | text h' => cases h.symm.trans h'; rfl
    | noText h' => cases h'
  | noText h =>
    cases hb with
    | text _ => cases h
    | noText _ => rfl
    | noPattern => rfl
  | noPattern => cases hb <;> rfl

namespace Database

variable (db : Database)

/-- Whether a value is among the items of an array, none of which is null. -/
def isAny (v : Value) (items : List Value) : Logic :=
  if items.isEmpty then some false
  else if v.isNull then none
  else some (items.any (db.equal v))

/-- Equality that is never unknown. -/
def notDistinct (v w : Value) : Bool :=
  if v.isNull || w.isNull then v.isNull && w.isNull else db.equal v w

/-- A comparison is unknown where there is nothing to compare. -/
def relate (r : Relation) (v w : Value) : Logic :=
  if v.isNull || w.isNull then none else (db.compare v w).map r.holds

end Database

/-- The truth value of a condition. -/
inductive Condition.Evaluates (db : Database) : Scope → Condition → Logic → Prop where
  | isNull {scope : Scope} {t : Term} {v : Value} (h : t.Denotes db scope v) :
      Evaluates db scope (.isNull t) (some v.isNull)
  | never (scope : Scope) (t : Term) : Evaluates db scope (.never t) (some false)
  | anyOf {scope : Scope} {t : Term} {v : Value} {type : ScalarType} {items : List Value}
      (h : t.Denotes db scope v) (present : ∀ w ∈ items, w.isNull = false) :
      Evaluates db scope (.anyOf t (.parameter (.array type items))) (db.isAny v items)
  | notDistinct {scope : Scope} {a b : Term} {v w : Value} (ha : a.Denotes db scope v)
      (hb : b.Denotes db scope w) :
      Evaluates db scope (.notDistinct a b) (some (db.notDistinct v w))
  | like {scope : Scope} {ignoreCase : Bool} {t : Term} {pattern : Pattern} {v : Value}
      {p : Option String} {truth : Logic} (ht : t.Denotes db scope v)
      (hp : pattern.Denotes db scope ignoreCase p) (h : Matches db ignoreCase v p truth) :
      Evaluates db scope (.like ignoreCase t pattern) truth
  | compare {scope : Scope} {a b : Term} {v w : Value} (r : Relation) (ha : a.Denotes db scope v)
      (hb : b.Denotes db scope w) : Evaluates db scope (.compare r a b) (db.relate r v w)
  | not {scope : Scope} {c : Condition} {truth : Logic} (h : Evaluates db scope c truth) :
      Evaluates db scope (.not c) truth.not
  | and {scope : Scope} {a b : Condition} {ta tb : Logic} (ha : Evaluates db scope a ta)
      (hb : Evaluates db scope b tb) : Evaluates db scope (.and a b) (ta.and tb)
  | or {scope : Scope} {a b : Condition} {ta tb : Logic} (ha : Evaluates db scope a ta)
      (hb : Evaluates db scope b tb) : Evaluates db scope (.or a b) (ta.or tb)
  | someRow {rows : List Cells} {c : Condition} {truth : Cells → Logic}
      (h : ∀ cells ∈ rows, Evaluates db (.row cells) c (truth cells)) :
      Evaluates db (.group rows) (.someRow c) (Logic.some? (rows.map truth))

/-- A condition has one truth value at most. -/
theorem Condition.Evaluates.unique {db : Database} {scope : Scope} {c : Condition} {s t : Logic}
    (hs : c.Evaluates db scope s) (ht : c.Evaluates db scope t) : s = t := by
  induction c generalizing scope s t with
  | isNull =>
    cases hs with | isNull h => cases ht with | isNull h' => rw [h.unique h']
  | never => cases hs; cases ht; rfl
  | anyOf =>
    cases hs with | anyOf h _ => cases ht with | anyOf h' _ => rw [h.unique h']
  | notDistinct =>
    cases hs with
    | notDistinct ha hb =>
      cases ht with
      | notDistinct ha' hb' => rw [ha.unique ha', hb.unique hb']
  | like =>
    cases hs with
    | like hv hp h =>
      cases ht with
      | like hv' hp' h' =>
        cases hv.unique hv'
        cases hp.unique hp'
        exact h.unique h'
  | compare =>
    cases hs with
    | compare _ ha hb =>
      cases ht with
      | compare _ ha' hb' => rw [ha.unique ha', hb.unique hb']
  | not _ ih =>
    cases hs with | not h => cases ht with | not h' => rw [ih h h']
  | and _ _ iha ihb =>
    cases hs with
    | and ha hb =>
      cases ht with
      | and ha' hb' => rw [iha ha ha', ihb hb hb']
  | or _ _ iha ihb =>
    cases hs with
    | or ha hb =>
      cases ht with
      | or ha' hb' => rw [iha ha ha', ihb hb hb']
  | someRow _ ih =>
    cases hs with
    | someRow h =>
      cases ht with
      | someRow h' =>
        congr 1
        exact List.map_congr_left fun cells hmem => ih (h cells hmem) (h' cells hmem)

end EntityQuery.Sql
