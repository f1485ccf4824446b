import EntityQuery.Proofs.Sql.Meaning
import EntityQuery.Proofs.Sql.Rendering

/-!
# The meaning of texts

What a text means to a database is the meaning of the expression that it is read as. This module
gives expressions their meaning, in the same way as `Meaning` does for the conditions that
statements are made of: `Expr.Denotes` for values and `Expr.Evaluates` for truth values, both of
them relations with one value at most (`Expr.Denotes.unique`, `Expr.Evaluates.unique`). Unlike a
condition, an expression does not hold the values that it is sent with: a parameter is the value
with its number among those beside the text.

`Means` is a truth value of a text. **A text means what its condition means**
(`Condition.Evaluates.means`): by `Condition.read?_text` the text is read as the expression of the
condition, and the expression has the truth value of the condition
(`Condition.Evaluates.expr`), wherever the values of the condition stand among those that are sent
(`SentAt`). The functions `MAX` and `MIN` have two names each in a filter, which is why the database
must treat the two alike (`Database.Agrees`).
-/

namespace EntityQuery.Sql

/-! ## Values -/

/-- The lower case of a text; there is none of anything else. -/
def Database.lowered (db : Database) : Value → Value
  | .text s => .text (db.lower s)
  | _ => .null

/-- Two texts put together; null if one of the values is. -/
def joinTexts : Value → Value → Option Value
  | .text s, .text t => some (.text (s ++ t))
  | .null, _ | _, .null => some .null
  | _, _ => none

variable {db : Database} {binds : List Bind} {scope : Scope} {e : Expr} {v w : Value}

/-- The value of an expression, where these values are sent beside its text. -/
inductive Expr.Denotes (db : Database) (binds : List Bind) : Scope → Expr → Value → Prop where
  | cell (cells : Cells) (c : ColumnRef) : Denotes db binds (.row cells) (.column c) (cells c)
  | common {rows : List Cells} {c : ColumnRef} {v : Value} (ne : rows ≠ [])
      (same : ∀ cells ∈ rows, cells c = v) : Denotes db binds (.group rows) (.column c) v
  | parameter (scope : Scope) {n : Nat} {v : Value} (sent : binds[n]? = some (.scalar v)) :
      Denotes db binds scope (.parameter (n + 1)) v
  | string (scope : Scope) (s : List Char) : Denotes db binds scope (.string s) (.text (.ofList s))
  | null (scope : Scope) : Denotes db binds scope .null .null
  | lower {scope : Scope} {e : Expr} {v : Value} (h : Denotes db binds scope e v) :
      Denotes db binds scope (.lower e) (db.lowered v)
  | concat {scope : Scope} {a b : Expr} {v w u : Value} (ha : Denotes db binds scope a v)
      (hb : Denotes db binds scope b w) (h : joinTexts v w = some u) :
      Denotes db binds scope (.concat a b) u
  | called {rows : List Cells} (f : Aggregate) {e : Expr} {value : Cells → Value}
      (h : ∀ cells ∈ rows, Denotes db binds (.row cells) e (value cells)) :
      Denotes db binds (.group rows) (.aggregate f e) (db.call f (rows.map value))

theorem Expr.Denotes.unique (hv : e.Denotes db binds scope v) (hw : e.Denotes db binds scope w) :
    v = w := by
  induction hv generalizing w with
  | cell => cases hw; rfl
  | common ne same =>
    obtain ⟨cells, hcells⟩ := List.exists_mem_of_ne_nil _ ne
    cases hw with
    | common _ same' => exact (same cells hcells).symm.trans (same' cells hcells)
  | parameter _ sent => cases hw with | parameter _ sent' => cases sent.symm.trans sent'; rfl
  | string => cases hw; rfl
  | null => cases hw; rfl
  | lower _ ih => cases hw with | lower h => rw [ih h]
  | concat _ _ h iha ihb =>
    cases hw with
    | concat ha' hb' h' =>
      cases iha ha'
      cases ihb hb'
      exact Option.some.inj (h.symm.trans h')
  | called f _ ih =>
    cases hw with
    | called _ h => rw [List.map_congr_left fun cells hmem => ih cells hmem (h cells hmem)]

/-! ## Truth values -/

/-- Whether a text matches a pattern in which a backslash escapes; unknown unless there are both. -/
inductive Matched : Value → Value → Logic → Prop where
  | text {s p : String} {items : List PatternItem} (h : patternItems? p.toList = some items) :
      Matched (.text s) (.text p) (some (matchesItems items s.toList))
  | noText {v w : Value} (h : v.text? = none) : Matched v w none
  | noPattern {v : Value} : Matched v .null none

theorem Matched.unique {s t : Logic} (hs : Matched v w s) (ht : Matched v w t) : s = t := by
  cases hs with
  | text h =>
    cases ht with
    | text h' => cases h.symm.trans h'; rfl
    | noText h' => cases h'
  | noText h =>
    cases ht with
    | text _ => cases h
    | noText _ | noPattern => rfl
  | noPattern => cases ht <;> rfl

/-- The truth value of an expression, where these values are sent beside its text. -/
inductive Expr.Evaluates (db : Database) (binds : List Bind) : Scope → Expr → Logic → Prop where
  | isNull {scope : Scope} {e : Expr} {v : Value} (h : e.Denotes db binds scope v) :
      Evaluates db binds scope (.isNull e) (some v.isNull)
  | never (scope : Scope) : Evaluates db binds scope .never (some false)
  | anyOf {scope : Scope} {e : Expr} {v : Value} {n : Nat} {type : ScalarType}
      {items : List Value} (h : e.Denotes db binds scope v)
      (sent : binds[n]? = some (.array type items)) (present : ∀ w ∈ items, w.isNull = false) :
      Evaluates db binds scope (.anyOf e (.parameter (n + 1))) (db.isAny v items)
  | notDistinct {scope : Scope} {a b : Expr} {v w : Value} (ha : a.Denotes db binds scope v)
      (hb : b.Denotes db binds scope w) :
      Evaluates db binds scope (.notDistinct a b) (some (db.notDistinct v w))
  | like {scope : Scope} {e pattern : Expr} {v w : Value} {truth : Logic}
      (he : e.Denotes db binds scope v) (hp : pattern.Denotes db binds scope w)
      (h : Matched v w truth) :
      Evaluates db binds scope (.like e pattern (.string ['\\'])) truth
  | compare {scope : Scope} {a b : Expr} {v w : Value} (r : Relation)
      (ha : a.Denotes db binds scope v) (hb : b.Denotes db binds scope w) :
      Evaluates db binds scope (.compare r a b) (db.relate r v w)
  | not {scope : Scope} {e : Expr} {truth : Logic} (h : Evaluates db binds scope e truth) :
      Evaluates db binds scope (.not e) truth.not
  | and {scope : Scope} {a b : Expr} {ta tb : Logic} (ha : Evaluates db binds scope a ta)
      (hb : Evaluates db binds scope b tb) : Evaluates db binds scope (.and a b) (ta.and tb)
  | or {scope : Scope} {a b : Expr} {ta tb : Logic} (ha : Evaluates db binds scope a ta)
      (hb : Evaluates db binds scope b tb) : Evaluates db binds scope (.or a b) (ta.or tb)
  | someRow {rows : List Cells} {e : Expr} {truth : Cells → Logic}
      (h : ∀ cells ∈ rows, Evaluates db binds (.row cells) e (truth cells)) :
      Evaluates db binds (.group rows) (.someRow e) (Logic.some? (rows.map truth))

/-- An expression has one truth value at most. -/
theorem Expr.Evaluates.unique {s t : Logic} (hs : e.Evaluates db binds scope s)
    (ht : e.Evaluates db binds scope t) : s = t := by
  induction hs generalizing t with
  | isNull h => cases ht with | isNull h' => rw [h.unique h']
  | never => cases ht; rfl
  | anyOf h sent _ =>
    cases ht with
    | anyOf h' sent' _ =>
      cases sent.symm.trans sent'
      rw [h.unique h']
  | notDistinct ha hb =>
    cases ht with
    | notDistinct ha' hb' => rw [ha.unique ha', hb.unique hb']
  | like he hp h =>
    cases ht with
    | like he' hp' h' =>
      cases he.unique he'
      cases hp.unique hp'
      exact h.unique h'
  | compare _ ha hb =>
    cases ht with
    | compare _ ha' hb' => rw [ha.unique ha', hb.unique hb']
  | not _ ih => cases ht with | not h => rw [ih h]
  | and _ _ iha ihb => cases ht with | and ha hb => rw [iha ha, ihb hb]
  | or _ _ iha ihb => cases ht with | or ha hb => rw [iha ha, ihb hb]
  | someRow _ ih =>
    cases ht with
    | someRow h => rw [List.map_congr_left fun cells hmem => ih cells hmem (h cells hmem)]

/-- The text of a condition has this truth value, where these values are sent beside it. -/
def Means (db : Database) (binds : List Bind) (scope : Scope) (text : String) (truth : Logic) :
    Prop :=
  ∃ e, Expr.read? text = some e ∧ e.Evaluates db binds scope truth

theorem Means.unique {text : String} {s t : Logic} (hs : Means db binds scope text s)
    (ht : Means db binds scope text t) : s = t := by
  obtain ⟨e, read, hs⟩ := hs
  obtain ⟨e', read', ht⟩ := ht
  cases read.symm.trans read'
  exact hs.unique ht

/-- Where `used` values have been sent before, these are sent next. -/
def SentAt (binds : List Bind) (used : Nat) (own : List Bind) : Prop :=
  ∃ later, binds.drop used = own ++ later

theorem SentAt.left {used : Nat} {a b : List Bind} (h : SentAt binds used (a ++ b)) :
    SentAt binds used a := by
  obtain ⟨later, h⟩ := h
  exact ⟨b ++ later, by rw [h, List.append_assoc]⟩

theorem SentAt.right {used : Nat} {a b : List Bind} (h : SentAt binds used (a ++ b)) :
    SentAt binds (used + a.length) b := by
  obtain ⟨later, h⟩ := h
  refine ⟨later, ?_⟩
  rw [← List.drop_drop, h, List.append_assoc, List.drop_left]

theorem SentAt.getElem? {used : Nat} {b : Bind} (h : SentAt binds used [b]) :
    binds[used]? = some b := by
  obtain ⟨later, h⟩ := h
  have := congrArg (·[0]?) h
  simpa using this

theorem Database.Agrees.call_functionCalled (agrees : db.Agrees) (f : Aggregate)
    (values : List Value) : db.call (functionCalled f) values = db.call f values := by
  rw [agrees.call, agrees.call]
  cases f <;> rfl

variable {used : Nat}

theorem Term.Denotes.expr (agrees : db.Agrees) {t : Term} (h : t.Denotes db scope v)
    (sent : SentAt binds used t.fragment.binds) : (t.expr used).Denotes db binds scope v := by
  cases h with
  | cell cells c => exact .cell cells c
  | common ne same => exact .common ne same
  | called rows f c =>
    rw [← agrees.call_functionCalled]
    exact .called (functionCalled f) fun cells _ => .cell cells c
  | parameter _ v => exact .parameter scope sent.getElem?
  | null => exact .null scope

/-- The value in which case does not count. -/
def Database.folded (db : Database) (ignoreCase : Bool) (v : Value) : Value :=
  if ignoreCase then db.lowered v else v

theorem Expr.Denotes.lowered (h : e.Denotes db binds scope v) (ignoreCase : Bool) :
    (e.lowered ignoreCase).Denotes db binds scope (db.folded ignoreCase v) := by
  cases ignoreCase with
  | false => exact h
  | true => exact .lower h

theorem Expr.Denotes.preceded {text : String} (h : e.Denotes db binds scope (.text text))
    (anyBefore : Bool) : (e.preceded anyBefore).Denotes db binds scope
      (.text ((if anyBefore then "%" else "") ++ text)) := by
  cases anyBefore with
  | false => simpa [Expr.preceded] using h
  | true => exact .concat (.string scope ['%']) h rfl

theorem Expr.Denotes.followed {text : String} (h : e.Denotes db binds scope (.text text))
    (anyAfter : Bool) : (e.followed anyAfter).Denotes db binds scope
      (.text (text ++ if anyAfter then "%" else "")) := by
  cases anyAfter with
  | false => simpa [Expr.followed] using h
  | true => exact .concat h (.string scope ['%']) rfl

theorem Expr.Denotes.around_null (h : e.Denotes db binds scope .null) (anyBefore anyAfter : Bool) :
    ((e.preceded anyBefore).followed anyAfter).Denotes db binds scope .null := by
  have start : (e.preceded anyBefore).Denotes db binds scope .null := by
    cases anyBefore with
    | false => exact h
    | true => exact .concat (.string scope ['%']) h rfl
  cases anyAfter with
  | false => exact start
  | true => exact .concat start (.string scope ['%']) rfl

/-- The text of a pattern, as a value. -/
def patternValue : Option String → Value
  | some s => .text s
  | none => .null

theorem Pattern.Denotes.expr (agrees : db.Agrees) {ignoreCase : Bool} {p : Pattern}
    {text : Option String} (h : p.Denotes db scope ignoreCase text)
    (sent : SentAt binds used (p.fragment ignoreCase).binds) :
    (p.expr used ignoreCase).Denotes db binds scope (patternValue text) := by
  cases h with
  | text s => exact .parameter scope sent.getElem?
  | @term t s before after h =>
    rw [Pattern.binds_term] at sent
    have middle := (h.expr agrees sent).lowered ignoreCase
    have folded : db.folded ignoreCase (.text s) =
        .text (if ignoreCase then db.lower s else s) := by
      cases ignoreCase <;> rfl
    rw [folded] at middle
    exact (middle.preceded before).followed after
  | @null t before after h =>
    rw [Pattern.binds_term] at sent
    have middle := (h.expr agrees sent).lowered ignoreCase
    have folded : db.folded ignoreCase .null = .null := by cases ignoreCase <;> rfl
    rw [folded] at middle
    exact middle.around_null before after

theorem Matches.matched {ignoreCase : Bool} {p : Option String} {truth : Logic}
    (h : Matches db ignoreCase v p truth) :
    Matched (db.folded ignoreCase v) (patternValue p) truth := by
  cases h with
  | @text s p items h =>
    have := Matched.text (s := if ignoreCase then db.lower s else s) h
    cases ignoreCase <;> exact this
  | noText h =>
    refine .noText ?_
    cases ignoreCase with
    | false => exact h
    | true => cases v <;> first | rfl | cases h
  | noPattern => exact .noPattern

/-- The expression of a condition has the truth value of the condition. -/
theorem Condition.Evaluates.expr (agrees : db.Agrees) {c : Condition} {truth : Logic}
    (h : c.Evaluates db scope truth) (sent : SentAt binds used c.fragment.binds) :
    (c.expr used).Evaluates db binds scope truth := by
  induction h generalizing used with
  | isNull h => exact .isNull (h.expr agrees (by simpa [fragment] using sent))
  | never scope => exact .never scope
  | @anyOf scope t v type items h present =>
    have sent : SentAt binds used (t.fragment.binds ++ [.array type items]) := by
      simpa [fragment, Term.fragment] using sent
    exact .anyOf (h.expr agrees sent.left) sent.right.getElem? present
  | @notDistinct scope a b v w ha hb =>
    have sent : SentAt binds used (a.fragment.binds ++ b.fragment.binds) := by
      simpa [fragment] using sent
    exact .notDistinct (ha.expr agrees sent.left) (hb.expr agrees sent.right)
  | @like scope ignoreCase t pattern v p truth ht hp h =>
    have sent : SentAt binds used (t.fragment.binds ++ (pattern.fragment ignoreCase).binds) := by
      simpa [fragment, binds_lowered] using sent
    exact .like ((ht.expr agrees sent.left).lowered _) (hp.expr agrees sent.right) h.matched
  | @compare scope a b v w r ha hb =>
    have sent : SentAt binds used (a.fragment.binds ++ b.fragment.binds) := by
      simpa [fragment] using sent
    exact .compare r (ha.expr agrees sent.left) (hb.expr agrees sent.right)
  | not _ ih => exact .not (ih (by simpa [fragment] using sent))
  | @and scope a b ta tb _ _ iha ihb =>
    have sent : SentAt binds used (a.fragment.binds ++ b.fragment.binds) := by
      simpa [fragment] using sent
    exact .and (iha sent.left) (ihb sent.right)
  | @or scope a b ta tb _ _ iha ihb =>
    have sent : SentAt binds used (a.fragment.binds ++ b.fragment.binds) := by
      simpa [fragment] using sent
    exact .or (iha sent.left) (ihb sent.right)
  | @someRow rows c truth _ ih =>
    have sent : SentAt binds used c.fragment.binds := by simpa [fragment] using sent
    exact .someRow fun cells hmem => ih cells hmem sent

end EntityQuery.Sql
