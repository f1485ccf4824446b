import EntityQuery.Proofs.Sql.Queries

/-!
# The text of a condition is read as the condition

`Condition.expr` says which expression the text of a condition is meant to be: the parameters have
the numbers of the values that are sent, and a function is the one that its name stands for. **The
text of every condition is read as this expression and no other** (`Condition.read?_text`),
whatever the names of its columns and however many values are sent before its own.

The proof goes by induction on the condition. Terms are texts that nothing cuts (`Term.reads`); a
pattern is a chain of such texts joined by `||` (`Pattern.reads`); and every condition is a factor
of what may stand around it (`Condition.reads`), because a conjunction and a disjunction are written
in parentheses, what is negated stands in parentheses of its own, and what remains is a test of
operands.
-/

namespace EntityQuery.Sql

/-! ## Expressions of conditions -/

/-- The function that the name of a function stands for. -/
def functionCalled : Aggregate → Aggregate
  | .greatest => .max
  | .least => .min
  | f => f

/-- The expression of a term where `used` values have been sent before. -/
def Term.expr (used : Nat) : Term → Expr
  | column c => .column c
  | aggregate f c => .aggregate (functionCalled f) (.column c)
  | parameter _ => .parameter (used + 1)
  | null => .null

/-- The expression in which case does not count. -/
def Expr.lowered (ignoreCase : Bool) (e : Expr) : Expr := if ignoreCase then .lower e else e

/-- Any characters, as a pattern. -/
def Expr.anything : Expr := .string ['%']

/-- The expression, with anything before it. -/
def Expr.preceded (anyBefore : Bool) (e : Expr) : Expr :=
  if anyBefore then .concat .anything e else e

/-- The expression, with anything after it. -/
def Expr.followed (anyAfter : Bool) (e : Expr) : Expr :=
  if anyAfter then .concat e .anything else e

/-- The expression of a pattern where `used` values have been sent before. -/
def Pattern.expr (used : Nat) (ignoreCase : Bool) : Pattern → Expr
  | text _ => .parameter (used + 1)
  | term t anyBefore anyAfter =>
    (((t.expr used).lowered ignoreCase).preceded anyBefore).followed anyAfter

/-- The expression of a condition where `used` values have been sent before. -/
def Condition.expr (used : Nat) : Condition → Expr
  | isNull t => .isNull (t.expr used)
  | never _ => .never
  | anyOf t array => .anyOf (t.expr used) (array.expr (used + t.fragment.binds.length))
  | notDistinct a b => .notDistinct (a.expr used) (b.expr (used + a.fragment.binds.length))
  | like ignoreCase t pattern =>
    .like ((t.expr used).lowered ignoreCase)
      (pattern.expr (used + t.fragment.binds.length) ignoreCase) (.string ['\\'])
  | compare r a b => .compare r (a.expr used) (b.expr (used + a.fragment.binds.length))
  | not c => .not (c.expr used)
  | and a b => .and (a.expr used) (b.expr (used + a.fragment.binds.length))
  | or a b => .or (a.expr used) (b.expr (used + a.fragment.binds.length))
  | someRow c => .someRow (c.expr used)

/-! ## Terms -/

theorem reads_column (c : ColumnRef) :
    Reads c.text [.word c.row.text.toList, .lexeme .dot, .lexeme (.name c.column.toList)] :=
  .of_lex (lex_column c) (by simp [Unenclosed])

/-- A function of a column. -/
theorem reads_called (f : Aggregate) (c : ColumnRef) :
    ∃ items, Reads (callText f c.text) items ∧
      IsPrimary items (.aggregate (functionCalled f) (.column c)) := by
  have column := (IsPrimary.column c).isOperand.alone
  have argument : Group.ofItems?
      [.word c.row.text.toList, .lexeme .dot, .lexeme (.name c.column.toList)] =
        some (.expr (.column c)) := by
    rw [Group.ofItems?_expr column.first, column.ofItems?]
    rfl
  have called {start : String} (name : List Char) {e : Expr}
      (hs : Settles start [.word name, .opening])
      (applied : Expr.applied? name (.expr (.column c)) = some e) :
      ∃ items, Reads (start ++ c.text ++ ")") items ∧ IsPrimary items e :=
    ⟨_, .enclosed (l := [.word name]) hs (by simp [Unenclosed]) (reads_column c) argument,
      .applied applied⟩
  cases f with
  | countDistinct =>
    have distinct : Reads ("DISTINCT " ++ c.text) (.keyword .distinct :: _) :=
      .after (l := [.keyword .distinct]) (by decide) (by decide) (reads_column c)
    have read : Group.ofItems? (.keyword .distinct :: _) = some (.distinct (.column c)) :=
      congrArg (Option.map Group.distinct) column.ofItems?
    refine ⟨_, ?_, .applied (f := ['c', 'o', 'u', 'n', 't']) (g := .distinct (.column c)) rfl⟩
    rw [show callText .countDistinct c.text = "COUNT(" ++ ("DISTINCT " ++ c.text) ++ ")" by
      rw [← String.append_assoc]; rfl]
    exact .enclosed (l := [.word ['c', 'o', 'u', 'n', 't']]) (by decide) (by decide)
      distinct read
  | count => exact called ['c', 'o', 'u', 'n', 't'] (by decide) rfl
  | avg => exact called ['a', 'v', 'g'] (by decide) rfl
  | sum => exact called ['s', 'u', 'm'] (by decide) rfl
  | max | greatest => exact called ['m', 'a', 'x'] (by decide) rfl
  | min | least => exact called ['m', 'i', 'n'] (by decide) rfl

variable (used : Nat)

/-- A term is a text that nothing cuts. -/
theorem Term.reads (t : Term) :
    ∃ items, Reads (t.fragment.textFrom used) items ∧ IsPrimary items (t.expr used) := by
  cases t with
  | column c =>
    refine ⟨_, ?_, .column c⟩
    simpa [Term.fragment, Fragment.textFrom] using reads_column c
  | aggregate f c => simpa [Term.fragment, Fragment.textFrom, Term.expr] using reads_called f c
  | parameter b =>
    refine ⟨_, ?_, .parameter (used + 1)⟩
    simpa [Term.fragment, Fragment.textFrom] using
      Reads.of_lex (lex_parameter (used + 1)) (by simp [Unenclosed])
  | null =>
    have null : lex "NULL" = some [.keyword .null] := by decide
    exact ⟨_, .of_lex null (by decide), .null⟩

theorem binds_lowered (ignoreCase : Bool) (f : Fragment) :
    (lowered ignoreCase f).binds = f.binds := by
  cases ignoreCase <;> simp [lowered]

theorem lowered_reads (ignoreCase : Bool) {f : Fragment} {items : List Item} {e : Expr}
    (h : Reads (f.textFrom used) items) (primary : IsPrimary items e) :
    ∃ items, Reads ((lowered ignoreCase f).textFrom used) items ∧
      IsPrimary items (e.lowered ignoreCase) := by
  have alone := primary.isOperand.alone
  cases ignoreCase with
  | false => exact ⟨items, h, primary⟩
  | true =>
    have argument : Group.ofItems? items = some (.expr e) := by
      rw [Group.ofItems?_expr alone.first, alone.ofItems?]
      rfl
    refine ⟨_, ?_, .applied (f := ['l', 'o', 'w', 'e', 'r']) (g := .expr e) rfl⟩
    have text : (lowered true f).textFrom used = "lower(" ++ f.textFrom used ++ ")" := by
      simp [lowered, Fragment.textFrom, Fragment.textFrom_append, String.append_assoc]
    rw [text]
    exact .enclosed (l := [.word ['l', 'o', 'w', 'e', 'r']]) (by decide) (by decide) h
      argument

theorem Pattern.binds_term (ignoreCase : Bool) (t : Term) (anyBefore anyAfter : Bool) :
    ((Pattern.term t anyBefore anyAfter).fragment ignoreCase).binds = t.fragment.binds := by
  cases anyBefore <;> cases anyAfter <;> simp [fragment, binds_lowered]

/-- A pattern is a chain of texts. -/
theorem Pattern.reads (ignoreCase : Bool) (p : Pattern) :
    ∃ items, Reads ((p.fragment ignoreCase).textFrom used) items ∧
      IsOperand items (p.expr used ignoreCase) := by
  cases p with
  | text s =>
    obtain ⟨items, reads, primary⟩ := Term.reads used (.parameter (.scalar (.text s)))
    exact ⟨items, reads, primary.isOperand⟩
  | term t anyBefore anyAfter =>
    obtain ⟨_, reads, primary⟩ := Term.reads used t
    obtain ⟨items, middle, primary⟩ := lowered_reads used ignoreCase reads primary
    have anything := IsPrimary.string ['%']
    -- The two ends are put to the middle one after the other.
    have start : ∃ items, Reads ((if anyBefore then "'%' || " else "") ++
        (lowered ignoreCase t.fragment).textFrom used) items ∧
        IsOperand items (((t.expr used).lowered ignoreCase).preceded anyBefore) := by
      cases anyBefore with
      | false => exact ⟨items, by simpa using middle, primary.isOperand⟩
      | true =>
        have reads := Reads.after (l := [.string ['%'], .mark ['|', '|']]) (s := "'%' || ")
          (by decide) (by decide) middle
        exact ⟨_, reads, anything.isOperand.concat primary⟩
    obtain ⟨items, reads, operand⟩ := start
    have text : ((Pattern.term t anyBefore anyAfter).fragment ignoreCase).textFrom used =
        ((if anyBefore then "'%' || " else "") ++ (lowered ignoreCase t.fragment).textFrom used) ++
          (if anyAfter then " || '%'" else "") := by
      cases anyBefore <;> cases anyAfter <;>
        simp [Pattern.fragment, Fragment.textFrom, Fragment.textFrom_append, String.append_assoc]
    rw [text]
    cases anyAfter with
    | false => exact ⟨items, by simpa using reads, operand⟩
    | true =>
      have last : lex " || '%'" = some [.mark ['|', '|'], .string ['%']] := by decide
      exact ⟨_, reads.append (.of_lex last (by decide)) (by decide),
        operand.concat anything⟩

/-! ## Conditions -/

theorem reads_relation (r : Relation) : ∃ s, Settles (" " ++ r.text ++ " ") [.mark s] ∧
    relationOf? s = some r := by
  cases r with
  | eq => exact ⟨['='], by decide, rfl⟩
  | gt => exact ⟨['>'], by decide, rfl⟩
  | lt => exact ⟨['<'], by decide, rfl⟩
  | gte => exact ⟨['>', '='], by decide, rfl⟩
  | lte => exact ⟨['<', '='], by decide, rfl⟩

/-- Two factors with a connective between them, in parentheses. -/
theorem reads_connected {s t w : String} {x y : List Item} {a e : Expr} {k : Keyword}
    (hs : Reads s x) (ht : Reads t y) (factor : IsFactor x a) (hw : Settles w [.keyword k])
    (detached : Detached w) (ne : w ≠ "") (hk : (Item.keyword k).opensOther = false)
    (read : Expr.ofItems? (x ++ .keyword k :: y) = some e) :
    Reads ("(" ++ (s ++ w ++ t) ++ ")") [.group (.expr e)] := by
  have group : Group.ofItems? (x ++ .keyword k :: y) = some (.expr e) := by
    rw [Group.ofItems?_expr, read]
    · rfl
    · intro i hi
      cases x with
      | nil =>
        cases hi
        exact hk
      | cons j x => exact factor.first i hi
  exact .enclosed (l := []) (by decide) (by decide)
    (hs.between ht hw (by simp [Unenclosed]) detached ne) group

theorem reads_group {s b : String} {l : List Lexeme} {x : List Item} {e : Expr}
    (hs : Reads s x) (factor : IsFactor x e) (hb : Settles b (l ++ [.opening]))
    (unenclosed : Unenclosed l) :
    Reads (b ++ s ++ ")") (l.map .lexeme ++ [.group (.expr e)]) := by
  refine .enclosed hb unenclosed hs ?_
  rw [Group.ofItems?_expr factor.first, factor.ofItems?]
  rfl

/-- The values of a fragment by themselves have no text. -/
theorem Fragment.textFrom_hidden (f : Fragment) : f.hidden.textFrom used = "" := by
  induction f generalizing used with
  | nil => rfl
  | cons p f ih =>
    cases p with
    | text s => exact ih used
    | placeholder b | unused b => exact ih (used + 1)

namespace Condition

/-! ### How conditions are written -/

theorem textFrom_isNull (t : Term) :
    (isNull t).fragment.textFrom used = t.fragment.textFrom used ++ " IS NULL" := by
  simp [fragment, Fragment.textFrom, Fragment.textFrom_append]

/-- Only the text is gone: the values of the term are sent all the same. -/
theorem textFrom_never (t : Term) : (never t).fragment.textFrom used = "FALSE" := by
  simp [fragment, Fragment.textFrom, Fragment.textFrom_append, Fragment.textFrom_hidden]

theorem textFrom_anyOf (t array : Term) :
    (anyOf t array).fragment.textFrom used = t.fragment.textFrom used ++
      (" = ANY(" ++ array.fragment.textFrom (used + t.fragment.binds.length) ++ ")") := by
  simp [fragment, Fragment.textFrom, Fragment.textFrom_append, String.append_assoc]

theorem textFrom_notDistinct (a b : Term) :
    (notDistinct a b).fragment.textFrom used = a.fragment.textFrom used ++
      " IS NOT DISTINCT FROM " ++ b.fragment.textFrom (used + a.fragment.binds.length) := by
  simp [fragment, Fragment.textFrom, Fragment.textFrom_append, String.append_assoc]

theorem textFrom_like (ignoreCase : Bool) (t : Term) (p : Pattern) :
    (like ignoreCase t p).fragment.textFrom used =
      (lowered ignoreCase t.fragment).textFrom used ++ " LIKE " ++
        ((p.fragment ignoreCase).textFrom (used + t.fragment.binds.length) ++ " ESCAPE '\\'") := by
  simp [fragment, Fragment.textFrom, Fragment.textFrom_append, String.append_assoc, binds_lowered]

theorem textFrom_compare (r : Relation) (a b : Term) :
    (compare r a b).fragment.textFrom used = a.fragment.textFrom used ++ (" " ++ r.text ++ " ") ++
      b.fragment.textFrom (used + a.fragment.binds.length) := by
  simp [fragment, Fragment.textFrom, Fragment.textFrom_append, String.append_assoc]

variable (c d : Condition)

theorem textFrom_not :
    (not c).fragment.textFrom used = "NOT (" ++ c.fragment.textFrom used ++ ")" := by
  simp [fragment, Fragment.textFrom, Fragment.textFrom_append, String.append_assoc]

theorem textFrom_and :
    (and c d).fragment.textFrom used = "(" ++ (c.fragment.textFrom used ++ " AND " ++
      d.fragment.textFrom (used + c.fragment.binds.length)) ++ ")" := by
  simp [fragment, Fragment.textFrom, Fragment.textFrom_append, String.append_assoc]

theorem textFrom_or :
    (or c d).fragment.textFrom used = "(" ++ (c.fragment.textFrom used ++ " OR " ++
      d.fragment.textFrom (used + c.fragment.binds.length)) ++ ")" := by
  simp [fragment, Fragment.textFrom, Fragment.textFrom_append, String.append_assoc]

theorem textFrom_someRow :
    (someRow c).fragment.textFrom used = "BOOL_OR(" ++ c.fragment.textFrom used ++ ")" := by
  simp [fragment, Fragment.textFrom, Fragment.textFrom_append, String.append_assoc]

end Condition

/-- A condition is a factor of what may stand around it. -/
theorem Condition.reads (c : Condition) :
    ∃ items, Reads (c.fragment.textFrom used) items ∧ IsFactor items (c.expr used) := by
  induction c generalizing used with
  | isNull t =>
    obtain ⟨x, reads, primary⟩ := t.reads used
    have test : lex " IS NULL" = some [.keyword .is, .keyword .null] := by decide
    refine ⟨_, ?_, primary.isOperand.isNull⟩
    rw [textFrom_isNull]
    exact reads.append (.of_lex test (by decide)) (by decide)
  | never t =>
    have constant : lex "FALSE" = some [.keyword .false] := by decide
    refine ⟨_, ?_, .never⟩
    rw [textFrom_never]
    exact .of_lex constant (by decide)
  | anyOf t array =>
    obtain ⟨x, left, primary⟩ := t.reads used
    obtain ⟨y, right, argument⟩ := array.reads (used + t.fragment.binds.length)
    refine ⟨_, ?_, primary.isOperand.anyOf _⟩
    rw [textFrom_anyOf]
    refine left.append (reads_group right argument.isOperand.alone
      (l := [.mark ['='], .keyword .any]) (by decide) (by decide)) ?_
    rw [String.append_assoc]
    exact detached_append (by decide) (by decide)
  | notDistinct a b =>
    obtain ⟨x, left, first⟩ := a.reads used
    obtain ⟨y, right, second⟩ := b.reads (used + a.fragment.binds.length)
    refine ⟨_, ?_, first.isOperand.notDistinct second.isOperand⟩
    rw [textFrom_notDistinct]
    exact left.between right (l := [.keyword .is, .keyword .not, .keyword .distinct,
      .keyword .from']) (by decide) (by decide) (by decide) (by decide)
  | like ignoreCase t pattern =>
    obtain ⟨_, left, primary⟩ := t.reads used
    obtain ⟨x, left, primary⟩ := lowered_reads used ignoreCase left primary
    obtain ⟨y, right, operand⟩ := pattern.reads (used + t.fragment.binds.length) ignoreCase
    have escape : lex " ESCAPE '\\'" = some [.keyword .escape, .string ['\\']] := by
      decide
    refine ⟨_, ?_, primary.isOperand.like operand ['\\']⟩
    rw [textFrom_like]
    exact left.between (right.append (.of_lex escape (by decide)) (by decide))
      (l := [.keyword .like]) (by decide) (by decide) (by decide) (by decide)
  | compare r a b =>
    obtain ⟨x, left, first⟩ := a.reads used
    obtain ⟨y, right, second⟩ := b.reads (used + a.fragment.binds.length)
    obtain ⟨mark, settles, relation⟩ := reads_relation r
    refine ⟨_, ?_, first.isOperand.compare second.isOperand relation⟩
    rw [textFrom_compare]
    exact left.between right settles (by simp [Unenclosed]) (by cases r <;> decide)
      (by cases r <;> decide)
  | not c ih =>
    obtain ⟨x, reads, factor⟩ := ih used
    refine ⟨_, ?_, .not _⟩
    rw [textFrom_not]
    exact reads_group reads factor (l := [.keyword .not]) (by decide) (by decide)
  | and a b iha ihb =>
    obtain ⟨x, left, first⟩ := iha used
    obtain ⟨y, right, second⟩ := ihb (used + a.fragment.binds.length)
    refine ⟨_, ?_, .group _⟩
    rw [textFrom_and]
    exact reads_connected left right first (k := .and) (by decide) (by decide)
      (by decide) rfl (first.and second)
  | or a b iha ihb =>
    obtain ⟨x, left, first⟩ := iha used
    obtain ⟨y, right, second⟩ := ihb (used + a.fragment.binds.length)
    refine ⟨_, ?_, .group _⟩
    rw [textFrom_or]
    exact reads_connected left right first (k := .or) (by decide) (by decide)
      (by decide) rfl (first.or second)
  | someRow c ih =>
    obtain ⟨x, reads, factor⟩ := ih used
    refine ⟨_, ?_, .someRow _⟩
    rw [textFrom_someRow]
    exact reads_group reads factor (l := [.word ['b', 'o', 'o', 'l', '_', 'o', 'r']])
      (by decide) (by decide)

/-- **The text of a condition is read as the condition**, and as nothing else. -/
theorem Condition.read?_text (c : Condition) :
    Expr.read? (c.fragment.textFrom used) = some (c.expr used) := by
  obtain ⟨items, reads, factor⟩ := c.reads used
  exact reads.expr factor.ofItems?

end EntityQuery.Sql
